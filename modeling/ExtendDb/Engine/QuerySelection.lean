import ExtendDb.Engine.QueryKeyCondition
import ExtendDb.Storage.RowSelection

/-!
# The rows a Query selects

Which rows a `KeyConditionExpression` selects, against what its clauses say.
-/

namespace ExtendDb

open Fallible List Option WrittenClause KeyCondition RowFilter OrdMap Placement

/-- What table and index creation check of a key schema: a HASH attribute comes first and every key
attribute is defined. -/
structure ValidKeySchema (keySchema : List KeySchemaElement)
    (attrDefs : List AttributeDefinition) : Prop where
  hashFirst : keySchema.head?.map (·.keyType) = some .hash
  declared : ∀ ks ∈ keySchema, (declaredType attrDefs ks.attributeName).isSome = true

variable {attrDefs : List AttributeDefinition} {keySchema : List KeySchemaElement}

theorem ValidKeySchema.hashAttrs_ne_nil (h : ValidKeySchema keySchema attrDefs) :
    (hashKeyElements keySchema).map (·.attributeName) ≠ [] := by
  obtain ⟨ks, hks, hhash⟩ := map_eq_some_iff.mp h.hashFirst
  obtain ⟨rest, rfl⟩ := head?_eq_some_iff.mp hks
  simp [hashKeyElements, hhash]

theorem ValidKeySchema.declared_range (h : ValidKeySchema keySchema attrDefs)
    {conds : List SortKeyCondition} {names}
    (hnamed : ∀ cond ∈ conds, ∃ attr ∈ (rangeKeyElements keySchema).map (·.attributeName),
      resolvePathAttr cond.path names = .ok attr) :
    ∀ cond ∈ conds, ∃ name ty, resolvePathAttr cond.path names = .ok name ∧
      (name, ty) ∈ allSortKeyInfo keySchema attrDefs := by
  intro cond hcond
  obtain ⟨attr, hattr, hname⟩ := hnamed cond hcond
  obtain ⟨ks, hks, rfl⟩ := mem_map.mp hattr
  obtain ⟨ty, hty⟩ := isSome_iff_exists.mp (h.declared ks (mem_of_mem_filter hks))
  exact ⟨_, ty, hname, mem_allSortKeyInfo.mpr ⟨ks, hks, rfl, hty⟩⟩

def ExactlySatisfying (maps : ExpressionMaps) (clauses : List WrittenClause)
    (items selected : List Item) : Prop :=
  ∀ item, item ∈ selected ↔ item ∈ items ∧ ∀ c ∈ clauses, c.Holds maps item

/-! ## What disturbs a row -/

def hashAttr (keySchema : List KeySchemaElement) : String :=
  ((hashKeyElements keySchema).head?.map (·.attributeName)).getD ""

def sortAttr (keySchema : List KeySchemaElement) : Option String :=
  (rangeKeyElements keySchema).head?.map (·.attributeName)

/-- The clause is a `begins_with` on an attribute whose string goes on with the highest code
point. -/
def WrittenClause.CutOffIn (maps : ExpressionMaps) (c : WrittenClause) (item : Item) : Prop :=
  ∃ name v, c.attr.resolve maps = some name ∧ get? item name = some v ∧ c.CutOffOn maps v

def WrittenClause.valueText (base64 : Base64Engine) (maps : ExpressionMaps) (c : WrittenClause) :
    Option String :=
  (get? maps.values c.value).bind (hashKeyText base64)

def SortKeyPasses (maps : ExpressionMaps) (keySchema : List KeySchemaElement) (p : Placement)
    (item : Item) : Prop :=
  ∀ c ∈ p.sk, ∀ name ∈ sortAttr keySchema,
    ∃ v, get? item name = some v ∧ c.PassesOn maps v ∧ ¬c.CutOffOn maps v

def NetstringPartition (base64 : Base64Engine) (maps : ExpressionMaps)
    (keySchema : List KeySchemaElement) (p : Placement) (item : Item) : Prop :=
  ∃ v texts, get? item (hashAttr keySchema) = some v ∧
    List.Forall₂ (fun c text => c.valueText base64 maps = some text) (p.pk :: p.surplus) texts ∧
    hashKeyText base64 v = some (encodeNetstringComposite texts)

/-- Nothing keeps the query from deciding the clauses on this item. -/
def Undisturbed (base64 : Base64Engine) (keySchema : List KeySchemaElement)
    (maps : ExpressionMaps) (clauses : List WrittenClause) (item : Item) : Prop :=
  if isMultipartKeySchema keySchema then
    (∀ c ∈ clauses, c.Holds maps item) → ∀ c ∈ clauses, ¬c.CutOffIn maps item
  else
    ∀ p ∈ placement maps (hashAttr keySchema) clauses, if p.surplus = [] then
        p.pk.Holds maps item → (SortKeyPasses maps keySchema p item ↔ ∀ c ∈ p.sk, c.Holds maps item)
      else
        (¬∀ c ∈ clauses, c.Holds maps item) ∧
          ¬(NetstringPartition base64 maps keySchema p item ∧ SortKeyPasses maps keySchema p item)

/-! ## Accepted conditions -/

variable {kc : KeyCondition} {expr : String} {isReserved : String → Bool}
  {limits : ExpressionLimits}

theorem parseKeyConditionExpr_ok (h : parseKeyConditionExpr isReserved expr limits = .ok kc) :
    ∃ tokens, tokenizeFor expr limits.maxExpressionTokens .keyCondition = .ok tokens ∧
      parseKeyCondition tokens = .ok kc := by
  replace h := ok_of_check h
  cases hparsed : (do
      let tokens ← tokenizeFor expr limits.maxExpressionTokens .keyCondition
      if limits.enforceReservedKeywords then validateNoReservedWords isReserved tokens
      parseKeyCondition tokens : Result KeyCondition) with
  | error e =>
    rw [hparsed] at h
    cases h
  | ok parsed =>
    rw [hparsed] at h
    cases h
    obtain ⟨tokens, htokens, hrest⟩ := unbind hparsed
    refine ⟨tokens, htokens, ?_⟩
    cases hreserved : limits.enforceReservedKeywords with
    | true =>
      simp only [hreserved] at hrest
      exact (check_then_eq_ok.mp hrest).2
    | false =>
      simpa [hreserved] using hrest

theorem tokenizeFor_plainIdent {maxTokens kind tokens}
    (h : tokenizeFor expr maxTokens kind = .ok tokens) :
    ∀ token ∈ tokens, token.PlainIdent := by
  unfold tokenizeFor at h
  split at h
  · cases h
  · exact tokenizeFrom_plainIdent h

variable {keyInfo : TableKeyInfo} {maps : ExpressionMaps}

theorem queryKeyCondition_ok (h : queryKeyCondition isReserved limits keyInfo expr maps = .ok kc) :
    ∃ tokens clauses parsed,
      tokenizeFor expr limits.maxExpressionTokens .keyCondition = .ok tokens ∧
      Spells clauses tokens ∧ (∀ c ∈ clauses, c.attr.token.PlainIdent) ∧
      classifyMulti (clauses.map raw) = .ok parsed ∧
      parsed.resolveKeySchemaWith keyInfo.keySchema maps.names
        (checkKeyValueType (typeDefinitions keyInfo) maps) = .ok kc ∧
      checkPartitionKeyNamed keyInfo kc maps = .ok () := by
  obtain ⟨parsed, hparsed, h⟩ := unbind h
  obtain ⟨kc', hresolve, h⟩ := unbind h
  replace h := ok_of_check h
  obtain ⟨hnamed, h⟩ := check_then_eq_ok.mp h
  cases h
  obtain ⟨tokens, htokens, hkc⟩ := parseKeyConditionExpr_ok hparsed
  obtain ⟨clauses, hspells, hclassify⟩ := parseKeyCondition_ok hkc
  have hplain := tokenizeFor_plainIdent htokens
  exact ⟨tokens, clauses, parsed, htokens, hspells,
    fun c hc => hplain _ (hspells.attr_token_mem c hc), hclassify, hresolve, hnamed⟩

variable {v : AttributeValue}

theorem checkKeyValueType_ok {defs path expr} (h : checkKeyValueType defs maps path expr = .ok ())
    {attr} (hattr : resolvePathAttr path maps.names = .ok attr) {ty}
    (hty : declaredType defs attr = some ty) (hv : resolveExprToAv expr maps = .ok v) :
    ty.matches v = true := by
  obtain ⟨name, rfl, hget⟩ := resolveExprToAv_ok hv
  have hresolved : resolvePathAttrName path maps.names = some attr := resolveAttrName_iff.mpr hattr
  simp only [checkKeyValueType, hresolved, hty, hget] at h
  split at h
  · assumption
  · cases h

theorem declaredType_typeDefinitions {ks} (hks : ks ∈ keyInfo.keySchema) :
    declaredType (typeDefinitions keyInfo) ks.attributeName =
      declaredType keyInfo.attributeDefinitions ks.attributeName := by
  unfold typeDefinitions
  split
  · unfold declaredType
    rw [find?_filter]
    congr 2
    funext d
    by_cases hname : d.attributeName = ks.attributeName
    · have hkey : ∃ ks' ∈ keyInfo.keySchema, ks'.attributeName = ks.attributeName := ⟨ks, hks, rfl⟩
      simpa [hname] using hkey
    · simp [hname]
  · rfl

/-! ## Multi-attribute key schemas -/

def SortKeyCondition.CutOffIn (maps : ExpressionMaps) (cond : SortKeyCondition) (item : Item) :
    Prop :=
  ∃ name v t, resolvePathAttr cond.path maps.names = .ok name ∧ get? item name = some v ∧
    cond.test maps = some t ∧ t.CutOff v

variable {c : WrittenClause}

theorem WrittenClause.cutOffIn_iff (hplain : c.attr.token.PlainIdent) (item) :
    c.CutOffIn maps item ↔ c.condition.CutOffIn maps item := by
  simp only [CutOffIn, SortKeyCondition.CutOffIn, cutOffOn_iff, condition_path,
    resolvePathAttr_iff hplain]
  constructor
  · rintro ⟨name, v, hname, hv, t, ht, hcut⟩
    exact ⟨name, v, t, hname, hv, ht, hcut⟩
  · rintro ⟨name, v, t, hname, hv, ht, hcut⟩
    exact ⟨name, v, hname, hv, t, ht, hcut⟩

variable {item : Item}

theorem WrittenClause.passesAt_iff {name} : c.condition.PassesAt maps item name ↔
      ∃ v, get? item name = some v ∧ c.PassesOn maps v ∧ ¬c.CutOffOn maps v := by
  simp only [SortKeyCondition.PassesAt, passesOn_iff, cutOffOn_iff]
  cases c.condition.test maps <;> simp

variable {cond : SortKeyCondition}

theorem SortKeyCondition.passesAt_iff :
    (∃ name, resolvePathAttr cond.path maps.names = .ok name ∧ cond.PassesAt maps item name) ↔
      cond.Holds maps item ∧ ¬cond.CutOffIn maps item := by
  constructor
  · rintro ⟨name, hname, v, t, hv, ht, hpass, huncut⟩
    refine ⟨⟨name, v, t, hname, hv, ht, hpass⟩, ?_⟩
    rintro ⟨name', v', t', hname', hv', ht', hcut⟩
    cases hname.symm.trans hname'
    cases hv.symm.trans hv'
    cases ht.symm.trans ht'
    exact huncut hcut
  · rintro ⟨⟨name, v, t, hname, hv, ht, hpass⟩, huncut⟩
    exact ⟨name, hname, v, t, hv, ht, hpass, fun hcut => huncut ⟨name, v, t, hname, hv, ht, hcut⟩⟩

theorem KeyEquality.not_cutOffIn (maps) (e : KeyEquality) (item) :
    ¬e.condition.CutOffIn maps item := by
  rintro ⟨name, v, t, -, -, ht, hcut⟩
  obtain ⟨path, expr⟩ := e
  cases expr <;> simp [condition, SortKeyCondition.test] at ht
  obtain ⟨w, -, rfl⟩ := ht
  exact hcut

variable {bd : BigDecimalCrate} {base64 : Base64Engine} {row : StoredRow} {filter : RowFilter}

theorem RowFilter.keeps_iff : filter.keeps row = true ↔ row.pk = filter.pk ∧
      ∀ test ∈ filter.tests, columnPasses row test = true := by
  rw [keeps, Bool.and_eq_true, beq_iff_eq, List.all_eq_true]

theorem queryFilter_pk {kc}
    (h : queryFilter bd base64 keyInfo.keySchema keyInfo.attributeDefinitions kc maps =
      .ok filter) : conditionPkText base64 kc maps = .ok filter.pk := by
  obtain ⟨pk, hpk, h⟩ := unbind h
  obtain ⟨_, -, h⟩ := unbind h
  obtain ⟨_, -, h⟩ := unbind h
  cases h
  exact hpk

section

variable (hbd : bd.Documented) (hbase64 : Function.Injective base64.encode)
  (hschema : ValidKeySchema keyInfo.keySchema keyInfo.attributeDefinitions)
  (hmaps : maps.NormalValues) (hitem : ValidRow keyInfo.keySchema keyInfo.attributeDefinitions item)
  (hrow : storeRow bd base64 keyInfo.keySchema keyInfo.attributeDefinitions item = .ok row)
section

include hbase64 hschema hmaps hitem

theorem pkEqualities_texts {kc : KeyCondition}
    (hnames : List.Forall₂ (fun e attr => resolvePathAttr e.1 maps.names = .ok attr)
      kc.pkEqualities ((hashKeyElements keyInfo.keySchema).map (·.attributeName)))
    (htypes : ∀ e ∈ kc.pkEqualities,
      checkKeyValueType (typeDefinitions keyInfo) maps e.1 e.2 = .ok ())
    (hvalues : ∀ e ∈ kc.pkEqualities, ∃ w, resolveExprToAv e.2 maps = .ok w)
    (missing : KeySchemaElement → String) :
    List.Forall₂ (fun e ks => ∃ t u, equalityText base64 maps e = .ok t ∧
      hashPart base64 item (missing ks) ks = .ok u ∧ (t = u ↔ e.condition.Holds maps item))
      kc.pkEqualities (hashKeyElements keyInfo.keySchema) := by
  rw [forall₂_map_right_iff, forall₂_iff_zip] at hnames
  refine forall₂_iff_zip.mpr ⟨hnames.1, fun {e ks} hzip => ?_⟩
  obtain ⟨he, hks⟩ := of_mem_zip hzip
  have hks := mem_of_mem_filter hks
  obtain ⟨ty, hty⟩ := isSome_iff_exists.mp (hschema.declared ks hks)
  obtain ⟨w, hw⟩ := hvalues e he
  have hname := hnames.2 hzip
  have hmatches := checkKeyValueType_ok (htypes e he) hname
    ((declaredType_typeDefinitions hks).trans hty) hw
  exact equalityText_iff hbase64 hmaps hitem hks hty hname hw hmatches (missing ks)

include hbd hrow

/-- On a multi-attribute key schema a row is kept exactly when every clause holds of it and none
cuts it off. -/
theorem keeps_iff_of_multipart (hmulti : isMultipartKeySchema keyInfo.keySchema = true)
    {clauses : List WrittenClause} (hplain : ∀ c ∈ clauses, c.attr.token.PlainIdent) {parsed kc}
    (hclassify : classifyMulti (clauses.map raw) = .ok parsed)
    (hresolve : parsed.resolveKeySchemaWith keyInfo.keySchema maps.names
      (checkKeyValueType (typeDefinitions keyInfo) maps) = .ok kc) {filter}
    (hfilter : queryFilter bd base64 keyInfo.keySchema keyInfo.attributeDefinitions kc maps =
      .ok filter) :
    filter.keeps row = true ↔
      (∀ c ∈ clauses, c.Holds maps item) ∧ ∀ c ∈ clauses, ¬c.CutOffIn maps item := by
  obtain ⟨-, hpk, -⟩ := storeRow_ok hrow
  have htext := queryFilter_pk hfilter
  rw [resolveKeySchemaWith, if_pos hmulti] at hresolve
  have hlength : 1 < (hashKeyElements keyInfo.keySchema).length ∨
      1 < (rangeKeyElements keyInfo.keySchema).length := by
    simpa [isMultipartKeySchema] using hmulti
  obtain ⟨hperm, hnames, htypes, hnamed⟩ :=
    resolveMultipartWith_ok hschema.hashAttrs_ne_nil (by simp only [length_map]; omega)
      hclassify hresolve
  have hparts := pkEqualities_texts hbase64 hschema hmaps hitem hnames htypes
    (conditionPkText_values htext)
  rw [keeps_iff, partition_iff hparts htext hpk,
    tests_iff_of_named hbd hmaps hitem hrow hfilter (hschema.declared_range hnamed)]
  simp only [SortKeyCondition.passesAt_iff]
  have hclauses {P : SortKeyCondition → Prop} : (∀ cond ∈ clauses.map condition, P cond) ↔
        (∀ e ∈ kc.pkEqualities, P e.condition) ∧ ∀ cond ∈ kc.sortConditions, P cond := by
    have hall : (∀ cond ∈ clauses.map condition, P cond) ↔ ∀ cond ∈ kc.conditions, P cond :=
      ⟨fun h cond hc => h cond (hperm.mem_iff.mp hc), fun h cond hc => h cond (hperm.mem_iff.mpr hc)⟩
    rw [hall, conditions, forall_mem_append, List.forall_mem_map]
  have hholds : (∀ c ∈ clauses, c.Holds maps item) ↔
      ∀ cond ∈ clauses.map condition, cond.Holds maps item := by
    rw [List.forall_mem_map]
    exact forall₂_congr fun c hc => c.holds_iff (hplain c hc) item
  have hcut : (∀ c ∈ clauses, ¬c.CutOffIn maps item) ↔
      ∀ cond ∈ clauses.map condition, ¬cond.CutOffIn maps item := by
    rw [List.forall_mem_map]
    exact forall₂_congr fun c hc => not_congr (c.cutOffIn_iff (hplain c hc) item)
  rw [hholds, hcut, hclauses, hclauses]
  have huncut : ∀ e ∈ kc.pkEqualities, ¬e.condition.CutOffIn maps item :=
    fun e _ => e.not_cutOffIn maps item
  constructor
  · rintro ⟨hpks, hsort⟩
    exact ⟨⟨hpks, fun cond hc => (hsort cond hc).1⟩, huncut, fun cond hc => (hsort cond hc).2⟩
  · rintro ⟨⟨hpks, hsort⟩, -, hsortCut⟩
    exact ⟨hpks, fun cond hc => ⟨hsort cond hc, hsortCut cond hc⟩⟩

end

/-! ## Single-attribute key schemas -/

theorem encodeNetstringComposite_ne (t ts) : encodeNetstringComposite (t :: ts) ≠ t := by
  intro h
  have hlength := congrArg (fun s : String => s.toList.length) h
  simp [toList_encodeNetstringComposite, Netstring.encode, Netstring.frame] at hlength
  omega

theorem pkToText_iff {t} : pkToText base64 v = .ok t ↔ hashKeyText base64 v = some t := by
  unfold pkToText
  cases hashKeyText base64 v <;> simp

theorem equalityText_iff_valueText {t} :
    equalityText base64 maps c.equality = .ok t ↔ c.valueText base64 maps = some t := by
  rw [equalityText, bind_eq_ok, valueText, bind_eq_some_iff]
  simp only [pkToText_iff]
  constructor
  · rintro ⟨v, hv, ht⟩
    obtain ⟨name, hname, hget⟩ := resolveExprToAv_ok hv
    cases hname
    exact ⟨v, hget, ht⟩
  · rintro ⟨v, hget, ht⟩
    refine ⟨v, ?_, ht⟩
    rw [equality, resolveExprToAv, ExpressionMaps.resolveValue, hget]
    rfl

theorem ValidKeySchema.single (h : ValidKeySchema keySchema attrDefs)
    (hsingle : isMultipartKeySchema keySchema = false) :
    ∃ hash rest, keySchema = hash :: rest ∧ hashKeyElements keySchema = [hash] ∧
      keySchema.find? (fun ks => ks.keyType = .hash) = some hash ∧
      (rangeKeyElements keySchema).length ≤ 1 := by
  obtain ⟨hash, hhead, hhash⟩ := map_eq_some_iff.mp h.hashFirst
  obtain ⟨rest, rfl⟩ := head?_eq_some_iff.mp hhead
  simp only [isMultipartKeySchema, Bool.or_eq_false_iff, decide_eq_false_iff_not, Nat.not_lt]
    at hsingle
  refine ⟨hash, rest, rfl, ?_, by simp [hhash], hsingle.2⟩
  obtain ⟨hlength, -⟩ := hsingle
  rw [hashKeyElements, filter_cons_of_pos (by simpa using hhash)] at hlength ⊢
  rw [length_cons] at hlength
  exact congrArg (hash :: ·) (eq_nil_of_length_eq_zero (by omega))

variable {clauses : List WrittenClause}

theorem placement_isEquality {hash p} (h : placement maps hash clauses = some p) :
    p.pk ∈ clauses ∧ p.pk.isEquality = true := by
  have hequality : ∀ c ∈ equalityClauses clauses, c ∈ clauses ∧ c.isEquality = true :=
    fun c hc => mem_filter.mp hc
  unfold placement at h
  split at h
  · rename_i first rest heq _
    rw [heq] at hequality
    split at h
    · cases h
      exact hequality _ (by simp)
    rename_i last hlast
    split at h
    · cases h
      exact hequality _ (by simp)
    · cases h
      exact hequality _ (.tail _ (mem_of_getLast? hlast))
  · rename_i first rest c heq _
    rw [heq] at hequality
    cases h
    exact hequality _ (by simp)
  · cases h

theorem KeyCondition.mem_operands (hcond : cond ∈ kc.conditions) {o} (ho : o ∈ cond.operands) :
    o ∈ kc.operands := by
  have heq {e : KeyEquality} (he : o ∈ e.condition.operands) : o = e := by
    simpa [KeyEquality.condition, SortKeyCondition.operands] using he
  rw [conditions, sortConditions, mem_append, mem_append, List.mem_map, List.mem_map] at hcond
  rcases hcond with ⟨e, he, rfl⟩ | hsk | ⟨e, he, rfl⟩
  · rw [heq ho]
    exact mem_append_left _ (mem_append_left _ he)
  · exact mem_append_right _ (mem_flatMap.mpr ⟨cond, hsk, ho⟩)
  · rw [heq ho]
    exact mem_append_left _ (mem_append_right _ he)

variable {hash : KeySchemaElement}

/-- A single-attribute key condition that is accepted: the condition is that of the placement, whose
partition clause names the HASH attribute with a value of its type. -/
theorem resolveKeySchemaWith_single (hsingle : isMultipartKeySchema keyInfo.keySchema = false)
    (hfind : keyInfo.keySchema.find? (fun ks => ks.keyType = .hash) = some hash)
    (hhead : keyInfo.keySchema.head? = some hash) (hplain : ∀ c ∈ clauses, c.attr.token.PlainIdent)
    {parsed} (hclassify : classifyMulti (clauses.map raw) = .ok parsed)
    (hresolve : parsed.resolveKeySchemaWith keyInfo.keySchema maps.names
      (checkKeyValueType (typeDefinitions keyInfo) maps) = .ok kc)
    (hnamed : checkPartitionKeyNamed keyInfo kc maps = .ok ()) :
    ∃ p, placement maps hash.attributeName clauses = some p ∧ kc = p.keyCondition ∧
      resolvePathAttr p.pk.equality.1 maps.names = .ok hash.attributeName ∧
      checkKeyValueType (typeDefinitions keyInfo) maps p.pk.equality.1 p.pk.equality.2 =
        .ok () := by
  rw [resolveKeySchemaWith, if_neg (by simp [hsingle])] at hresolve
  obtain ⟨hvalues, hresolve⟩ := check_then_eq_ok.mp hresolve
  rw [hfind] at hresolve
  obtain ⟨p, hp, rfl⟩ := resolvePkSk_ok hplain hclassify hresolve
  refine ⟨p, hp, rfl, ?_, ?_⟩
  · rw [checkPartitionKeyNamed, if_neg (by simp [hsingle])] at hnamed
    simp only [hhead] at hnamed
    split at hnamed
    · rename_i hname
      exact resolveAttrName_iff.mp hname
    · cases hnamed
  · obtain ⟨hmem, heq⟩ := placement_isEquality hp
    have hcond : p.pk.equality.condition ∈ parsed.conditions := by
      rw [← condition_of_isEquality heq, (classifyMulti_conditions hclassify).mem_iff]
      exact mem_map_of_mem hmem
    exact forM_eq_ok.mp hvalues _ (mem_operands hcond (mem_singleton_self _))

theorem storeRow_pk {row} (hrow : storeRow bd base64 keySchema attrDefs item = .ok row)
    (hhash : hashKeyElements keySchema = [hash]) :
    ∃ v, get? item hash.attributeName = some v ∧ hashKeyText base64 v = some row.pk := by
  obtain ⟨-, hpk, -⟩ := storeRow_ok hrow
  rw [compositePkToText, hhash] at hpk
  simp only [hashPart] at hpk
  split at hpk
  · cases hpk
  · rename_i v hget
    exact ⟨v, hget, pkToText_iff.mp hpk⟩

section

variable {p : Placement}
  (hfilter : queryFilter bd base64 keyInfo.keySchema keyInfo.attributeDefinitions p.keyCondition
    maps = .ok filter)
include hrow hfilter

section

include hbd hschema hmaps hitem

theorem tests_iff_of_single (hrange : (rangeKeyElements keyInfo.keySchema).length ≤ 1) :
    (∀ test ∈ filter.tests, columnPasses row test = true) ↔
      SortKeyPasses maps keyInfo.keySchema p item := by
  obtain ⟨pk, -, h⟩ := unbind hfilter
  simp only [bind_eq_ok] at h
  obtain ⟨skTests, hsk, extraTests, hextra, h⟩ := h
  cases h
  cases hextra
  obtain ⟨pkClause, surplus, sk⟩ := p
  cases sk with
  | none =>
    cases hsk
    simp [SortKeyPasses]
  | some c =>
    have hone := mapM_eq_ok.mp hsk
    obtain ⟨tests, rest, hcolumn, hrest, rfl⟩ := forall₂_cons_left_iff.mp hone
    cases hrest
    simp only [reverse_nil, flatten_nil, append_nil, flatten_singleton]
    cases hranges : rangeKeyElements keyInfo.keySchema with
    | nil =>
      -- no RANGE attribute: the clause is dropped
      have hinfo : skInfo keyInfo.keySchema keyInfo.attributeDefinitions = none := by
        rw [skInfo, ← head?_filter, ← rangeKeyElements, hranges]
        rfl
      have hcolumns : sortColumn keyInfo.keySchema keyInfo.attributeDefinitions maps
          c.condition = none := by
        rw [sortColumn, hinfo, allSortKeyInfo, hranges]
        cases resolveAttrName c.condition.path maps <;> simp [rangeColumn]
      rw [hcolumns] at hcolumn
      cases hcolumn
      simp [SortKeyPasses, sortAttr, hranges]
    | cons range more =>
      rw [hranges, length_cons] at hrange
      obtain rfl : more = [] := eq_nil_of_length_eq_zero (by omega)
      have hmem : range ∈ keyInfo.keySchema :=
        mem_of_mem_filter (show range ∈ rangeKeyElements _ by simp [hranges])
      obtain ⟨ty, hty⟩ := isSome_iff_exists.mp (hschema.declared range hmem)
      have hsks : allSortKeyInfo keyInfo.keySchema keyInfo.attributeDefinitions =
          [(range.attributeName, ty)] := by
        simp [allSortKeyInfo, hranges, hty]
      have hcolumns : sortColumn keyInfo.keySchema keyInfo.attributeDefinitions maps
          c.condition = some (0, ty) := by
        have hinfo : skInfo keyInfo.keySchema keyInfo.attributeDefinitions =
            some (range.attributeName, ty) := by
          rw [skInfo, ← head?_filter, ← rangeKeyElements, hranges]
          simp [hty]
        rw [sortColumn, hsks, hinfo]
        cases hnamed : rangeColumn [(range.attributeName, ty)] maps c.condition.path with
        | none => rfl
        | some column =>
          -- there is no other column than the first
          obtain ⟨_, -, hpos⟩ := rangeColumn_some hnamed
          obtain ⟨hlt, heq⟩ := List.getElem?_eq_some_iff.mp hpos
          obtain ⟨pos, ty'⟩ := column
          obtain rfl : pos = 0 := by simpa using hlt
          cases heq
          rfl
      rw [hcolumns] at hcolumn
      rw [columnTests_iff hbd hmaps hitem hrow (by rw [hsks]; rfl) hcolumn]
      simp [SortKeyPasses, sortAttr, hranges, passesAt_iff]

end

theorem partition_iff_netstring {hash} (hhash : hashKeyElements keyInfo.keySchema = [hash])
    (hsurplus : p.surplus ≠ []) :
    row.pk = filter.pk ↔ NetstringPartition base64 maps keyInfo.keySchema p item := by
  have hname : hashAttr keyInfo.keySchema = hash.attributeName := by rw [hashAttr, hhash]; rfl
  obtain ⟨v, hget, htext⟩ := storeRow_pk hrow hhash
  obtain ⟨first, rest, hfirst, hrest, hpk⟩ := conditionPkText_ok (queryFilter_pk hfilter)
  rw [if_neg (by simpa [keyCondition] using hsurplus)] at hpk
  have htexts : List.Forall₂ (fun c text => c.valueText base64 maps = some text)
      (p.pk :: p.surplus) (first :: rest) := by
    refine .cons (equalityText_iff_valueText.mp hfirst) ?_
    have := mapM_eq_ok.mp hrest
    rw [keyCondition, forall₂_map_left_iff] at this
    exact this.imp fun c text h => equalityText_iff_valueText.mp h
  rw [NetstringPartition, hname, hpk]
  constructor
  · intro heq
    exact ⟨v, first :: rest, hget, htexts, heq ▸ htext⟩
  rintro ⟨v', texts, hget', htexts', htext'⟩
  cases hget.symm.trans hget'
  have hsame : first :: rest = texts :=
    right_unique_forall₂' (fun _ _ _ h h' => some.inj (h.symm.trans h')) htexts htexts'
  rw [hsame]
  exact some.inj (htext.symm.trans htext')

include hbd hbase64 hschema hmaps hitem

/-- On a single-attribute key schema a row is kept exactly when its clauses hold, if and only if the
row is undisturbed. -/
theorem keeps_iff_of_single (hsingle : isMultipartKeySchema keyInfo.keySchema = false)
    {clauses : List WrittenClause} (hplain : ∀ c ∈ clauses, c.attr.token.PlainIdent)
    (hp : placement maps (hashAttr keyInfo.keySchema) clauses = some p)
    (hname : resolvePathAttr p.pk.equality.1 maps.names = .ok (hashAttr keyInfo.keySchema))
    (htype : checkKeyValueType (typeDefinitions keyInfo) maps p.pk.equality.1 p.pk.equality.2 =
      .ok ()) :
    (filter.keeps row = true ↔ ∀ c ∈ clauses, c.Holds maps item) ↔
      Undisturbed base64 keyInfo.keySchema maps clauses item := by
  obtain ⟨hash, rest, hcons, hhash, -, hrange⟩ := hschema.single hsingle
  have hattr : hashAttr keyInfo.keySchema = hash.attributeName := by rw [hashAttr, hhash]; rfl
  have hks : hash ∈ keyInfo.keySchema := by rw [hcons]; simp
  rw [hattr] at hname
  have hpkText := queryFilter_pk hfilter
  obtain ⟨-, hrowPk, -⟩ := storeRow_ok hrow
  obtain ⟨hmem, hequality⟩ := placement_isEquality hp
  have hpkHolds : p.pk.equality.condition.Holds maps item ↔ p.pk.Holds maps item := by
    rw [p.pk.holds_iff (hplain _ hmem), condition_of_isEquality hequality]
  have hclauses : (∀ c ∈ clauses, c.Holds maps item) ↔ ∀ c ∈ p.clauses, c.Holds maps item :=
    ⟨fun h c hc => h c ((clauses_perm hp).mem_iff.mp hc),
      fun h c hc => h c ((clauses_perm hp).mem_iff.mpr hc)⟩
  rw [Undisturbed, if_neg (by simp [hsingle]), hp, keeps_iff,
    tests_iff_of_single hbd hschema hmaps hitem hrow hfilter hrange]
  simp only [mem_def, some.injEq, forall_eq']
  by_cases hsurplus : p.surplus = []
  · -- the partition is that of the first clause; only the second can go astray
    have hpks : p.keyCondition.pkEqualities = [p.pk.equality] := by
      rw [pkEqualities, keyCondition, hsurplus]
      rfl
    have hparts := pkEqualities_texts hbase64 hschema hmaps hitem
      (by rw [hpks, hhash]; exact .cons hname .nil)
      (by rw [hpks]; simpa using htype) (conditionPkText_values hpkText)
    rw [partition_iff hparts hpkText hrowPk, hpks, hclauses, Placement.clauses, hsurplus]
    simp only [mem_singleton, forall_eq, hpkHolds, if_true, cons_append, nil_append,
      forall_mem_cons, mem_toList]
    tauto
  · -- the clauses hold in the plain partition, while the netstring one is read
    have hdisjoint : row.pk = filter.pk → ¬p.pk.Holds maps item := by
      intro heq hholds
      obtain ⟨ty, hty⟩ := isSome_iff_exists.mp (hschema.declared hash hks)
      obtain ⟨first, more, hfirst, -, hpk⟩ := conditionPkText_ok hpkText
      obtain ⟨w, hw, -⟩ := unbind hfirst
      obtain ⟨t, u, ht, hu, htu⟩ := equalityText_iff hbase64 hmaps hitem hks hty
        hname hw (checkKeyValueType_ok htype hname
          ((declaredType_typeDefinitions hks).trans hty) hw) "missing partition key"
      rw [compositePkToText, hhash] at hrowPk
      rw [if_neg (by simpa [keyCondition] using hsurplus)] at hpk
      have hrowText : row.pk = u := Except.ok.inj (hrowPk.symm.trans hu)
      have hfirstText : first = t := Except.ok.inj (hfirst.symm.trans ht)
      have htext : t = u := htu.mpr (hpkHolds.mpr hholds)
      rw [hrowText, ← htext, ← hfirstText] at heq
      exact encodeNetstringComposite_ne first more (hpk.symm.trans heq.symm)
    rw [if_neg hsurplus, ← partition_iff_netstring hrow hfilter hhash hsurplus]
    have hnot : row.pk = filter.pk → ¬∀ c ∈ clauses, c.Holds maps item :=
      fun heq hall => hdisjoint heq (hall _ hmem)
    tauto

end

end

/-! ## Selection -/

theorem queryRows_ok {items selected}
    (h : queryRows bd base64 keySchema attrDefs kc maps items = .ok selected) :
    ∃ filter, queryFilter bd base64 keySchema attrDefs kc maps = .ok filter ∧
      (∀ item ∈ selected, item ∈ items) ∧
      ∀ item ∈ items, ∃ row, storeRow bd base64 keySchema attrDefs item = .ok row ∧
        (item ∈ selected ↔ filter.keeps row = true) := by
  obtain ⟨rows, hrows, h⟩ := unbind h
  obtain ⟨filter, hfilter, h⟩ := unbind h
  cases h
  have hrows := mapM_eq_ok.mp hrows
  have hstored : ∀ row ∈ rows, row.item ∈ items ∧
      storeRow bd base64 keySchema attrDefs row.item = .ok row := by
    intro row hrow
    obtain ⟨item, hitem, hstore⟩ := forall₂_mem_left hrows.flip hrow
    rw [(storeRow_ok hstore).1]
    exact ⟨hitem, hstore⟩
  refine ⟨filter, hfilter, ?_, fun item hitem => ?_⟩
  · intro item hitem
    obtain ⟨row, hrow, rfl⟩ := mem_map.mp hitem
    exact (hstored row (mem_of_mem_filter hrow)).1
  obtain ⟨row, hrow, hstore⟩ := forall₂_mem_left hrows hitem
  refine ⟨row, hstore, ?_⟩
  constructor
  · intro hselected
    obtain ⟨row', hrow', rfl⟩ := mem_map.mp hselected
    obtain ⟨hmem, hkeeps⟩ := mem_filter.mp hrow'
    cases (hstored row' hmem).2.symm.trans hstore
    exact hkeeps
  · intro hkeeps
    exact mem_map.mpr ⟨row, mem_filter.mpr ⟨hrow, hkeeps⟩, (storeRow_ok hstore).1⟩

/-- Key-condition soundness.  On every table whose key numbers, like those of the request, are in
normal form, an accepted `KeyConditionExpression` spells clauses, and the rows selected are exactly
those that satisfy every one of them if and only if every row is undisturbed. -/
theorem queryRows_exactlySatisfying_iff (bd : BigDecimalCrate) (hbd : bd.Documented)
    (base64 : Base64Engine) (hbase64 : Function.Injective base64.encode)
    (isReserved : String → Bool) (limits : ExpressionLimits) (keyInfo : TableKeyInfo)
    (hschema : ValidKeySchema keyInfo.keySchema keyInfo.attributeDefinitions)
    (expr : String) (maps : ExpressionMaps) (hmaps : maps.NormalValues) (kc : KeyCondition)
    (haccepted : queryKeyCondition isReserved limits keyInfo expr maps = .ok kc) (items : List Item)
    (hitems : ∀ item ∈ items, ValidRow keyInfo.keySchema keyInfo.attributeDefinitions item)
    (selected : List Item)
    (hrun : queryRows bd base64 keyInfo.keySchema keyInfo.attributeDefinitions kc maps items =
      .ok selected) :
    ∃ tokens clauses, tokenizeFor expr limits.maxExpressionTokens .keyCondition = .ok tokens ∧
      (∀ spelled, Spells spelled tokens ↔ spelled = clauses) ∧
      (ExactlySatisfying maps clauses items selected ↔
        ∀ item ∈ items, Undisturbed base64 keyInfo.keySchema maps clauses item) := by
  obtain ⟨tokens, clauses, parsed, htokens, hspells, hplain, hclassify, hresolve, hnamed⟩ :=
    queryKeyCondition_ok haccepted
  obtain ⟨filter, hfilter, hsubset, hselected⟩ := queryRows_ok hrun
  refine ⟨tokens, clauses, htokens, fun spelled => ⟨fun h => h.unique hspells, ?_⟩, ?_⟩
  · rintro rfl
    exact hspells
  -- row by row
  have hexact : ExactlySatisfying maps clauses items selected ↔
      ∀ item ∈ items, (item ∈ selected ↔ ∀ c ∈ clauses, c.Holds maps item) := by
    constructor
    · intro h item hitem
      rw [h item]
      exact and_iff_right hitem
    intro h item
    constructor
    · exact fun hmem => ⟨hsubset item hmem, (h item (hsubset item hmem)).mp hmem⟩
    · exact fun ⟨hitem, hall⟩ => (h item hitem).mpr hall
  rw [hexact]
  refine forall₂_congr fun item hitem => ?_
  obtain ⟨row, hrow, hkept⟩ := hselected item hitem
  rw [hkept]
  cases hmulti : isMultipartKeySchema keyInfo.keySchema with
  | true =>
    rw [keeps_iff_of_multipart hbd hbase64 hschema hmaps (hitems item hitem) hrow hmulti hplain
      hclassify hresolve hfilter, Undisturbed, if_pos hmulti]
    tauto
  | false =>
    obtain ⟨hash, rest, hcons, hhash, hfind, -⟩ := hschema.single hmulti
    have hattr : hashAttr keyInfo.keySchema = hash.attributeName := by rw [hashAttr, hhash]; rfl
    obtain ⟨p, hp, rfl, hname, htype⟩ := resolveKeySchemaWith_single hmulti hfind
      (by rw [hcons]; rfl) hplain hclassify hresolve hnamed
    rw [← hattr] at hp hname
    exact keeps_iff_of_single hbd hbase64 hschema hmaps (hitems item hitem) hrow hfilter hmulti
      hplain hp hname htype

def sortKeyTable : TableKeyInfo where
  tableName := "t"
  keySchema := [⟨"pk", .hash⟩, ⟨"sk", .range⟩]
  baseKeySchema := []
  attributeDefinitions := [⟨"pk", .s⟩, ⟨"sk", .s⟩]
  vectorIndexes := []

/-- `pk = :p AND note = :v` with these values. -/
def strayMaps : ExpressionMaps := ⟨[], [("p", .s "a"), ("v", .s "x")]⟩

def strayCondition : KeyCondition :=
  ⟨[.attr "pk"], .placeholder "p", [], some (.compare [.attr "note"] .eq (.placeholder "v")), []⟩

def strayClauses : List WrittenClause :=
  [.compare (.ident "pk") .eq "p", .compare (.ident "note") .eq "v"]

def strayRow : Item := [("note", .s "y"), ("pk", .s "a"), ("sk", .s "x")]

theorem strayRow_valid :
    ValidRow sortKeyTable.keySchema sortKeyTable.attributeDefinitions strayRow where
  keys := rfl
  normal := by
    intro ks hks v hget n hn
    subst hn
    simp only [sortKeyTable, mem_cons, not_mem_nil, or_false] at hks
    rcases hks with rfl | rfl <;> cases hget

/-- A clause on another attribute is accepted and decided on the sort key: the row is selected
although its `note` is not the value asked for. -/
theorem queryRows_stray_clause :
    queryKeyCondition (fun _ => false) .default sortKeyTable "pk = :p AND note = :v" strayMaps =
      .ok strayCondition ∧
    queryRows .reference .standard sortKeyTable.keySchema sortKeyTable.attributeDefinitions
      strayCondition strayMaps [strayRow] = .ok [strayRow] ∧
    ∃ tokens, tokenizeFor "pk = :p AND note = :v" 4096 .keyCondition = .ok tokens ∧
      Spells strayClauses tokens ∧
      ¬ExactlySatisfying strayMaps strayClauses [strayRow] [strayRow] := by
  refine ⟨rfl, rfl, _, rfl, .inl (.and (.bare _) (.single (.bare _))), fun h => ?_⟩
  obtain ⟨-, hall⟩ := (h strayRow).mp (by simp)
  obtain ⟨name, v, hname, hv, t, ht, hpass⟩ := hall _ (.tail _ (mem_cons_self ..))
  cases hname
  cases hv
  cases ht
  obtain ⟨o, ho, haccepts⟩ := hpass
  cases ho
  revert haccepts
  decide

/-- The theorem at the stray clause: the one row is disturbed, as it has to be. -/
theorem queryRows_exactlySatisfying_iff_stray : ∃ tokens clauses,
      tokenizeFor "pk = :p AND note = :v" 4096 .keyCondition = .ok tokens ∧
      (∀ spelled, Spells spelled tokens ↔ spelled = clauses) ∧
      (ExactlySatisfying strayMaps clauses [strayRow] [strayRow] ↔
        ∀ item ∈ [strayRow], Undisturbed .standard sortKeyTable.keySchema strayMaps clauses item) :=
  queryRows_exactlySatisfying_iff .reference BigDecimalCrate.reference_documented .standard
    Base64Engine.standard_documented.encode_injective (fun _ => false) .default sortKeyTable
    ⟨rfl, by decide⟩ "pk = :p AND note = :v" strayMaps
    (by simp [ExpressionMaps.NormalValues, strayMaps, NormalKeyValue]) strayCondition rfl [strayRow]
    (by simpa using strayRow_valid) [strayRow] rfl

end ExtendDb
