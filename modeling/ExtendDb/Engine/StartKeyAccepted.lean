import ExtendDb.Engine.StartKey
import ExtendDb.Engine.QuerySelection

/-!
# The start keys a Query accepts

The key of a row that the key condition admits passes every check of a start key, unless the row is
at the far end of the sort key range; and behind such a row the condition admits nothing.
-/

namespace ExtendDb

open Fallible Option OrdMap SortKeyCondition List

/-! ## Paths -/

variable {maps : ExpressionMaps}

theorem resolvePath_eq {path name} (h : conditionAttributeName path maps = some name) (item) :
    resolvePath path item maps = match get? item name with
      | some current => walkPath maps path.tail current
      | none => .ok none := by
  cases path with
  | nil => simp [conditionAttributeName, resolvePathAttrName] at h
  | cons first rest =>
    cases first with
    | index idx => simp [conditionAttributeName, resolvePathAttrName] at h
    | attr n =>
      have hfirst : resolveElementName (.attr n) maps = .ok name := by
        simp only [conditionAttributeName, resolvePathAttrName, head?_cons] at h
        rw [resolveElementName, resolveNameRef]
        cases hstrip : stripPrefix '#' n with
        | none =>
          rw [hstrip] at h
          cases h
          rfl
        | some refName =>
          rw [hstrip] at h
          simp [ExpressionMaps.resolveName, h]
      rw [resolvePath, hfirst]
      rfl

theorem walkPath_scalar {rest current v} {ty : ScalarAttributeType}
    (hscalar : ty.matches current = true) (h : walkPath maps rest current = .ok (some v)) :
    v = current := by
  cases rest with
  | nil =>
    cases h
    rfl
  | cons element rest =>
    cases element with
    | attr name =>
      obtain ⟨resolved, -, h⟩ := unbind h
      cases current <;> cases ty <;> simp_all [ScalarAttributeType.matches]
    | index idx =>
      cases current <;> cases ty <;> simp_all [ScalarAttributeType.matches, walkPath]

/-! ## Key schemas -/

structure KeyedRow (keySchema : List KeySchemaElement) (attrDefs : List AttributeDefinition)
    (row : Item) : Prop where
  keys : validateItemKeys row keySchema attrDefs = .ok ()
  nonempty : validateKeyNotEmpty row keySchema = .ok ()

variable {base : List KeySchemaElement} {ks : KeySchemaElement}

theorem mem_combinedLekKeySchema {indexInfo} (h : ks ∈ combinedLekKeySchema base indexInfo) :
    ks ∈ base ∨ ∃ idx, indexInfo = some idx ∧ ks ∈ idx.keySchema := by
  cases indexInfo with
  | none => exact .inl h
  | some idx =>
    have hfold : ∀ (added combined : List KeySchemaElement), ks ∈ added.foldl (fun combined ks =>
          if combined.any (fun k => k.attributeName == ks.attributeName) then combined
          else combined ++ [ks]) combined → ks ∈ combined ∨ ks ∈ added := by
      intro added
      induction added with
      | nil => exact fun combined hmem => .inl hmem
      | cons a rest ih =>
        intro combined hmem
        rw [foldl_cons] at hmem
        rcases ih _ hmem with hin | hin
        · split at hin
          · exact .inl hin
          · rcases mem_append.mp hin with hin | hin
            · exact .inl hin
            · exact .inr (mem_cons.mpr (.inl (mem_singleton.mp hin)))
        · exact .inr (.tail _ hin)
    exact (hfold idx.keySchema base h).imp_right fun hin => ⟨idx, rfl, hin⟩

theorem mem_combinedLekKeySchema_of_base (h : ks ∈ base) (indexInfo) :
    ks ∈ combinedLekKeySchema base indexInfo := by
  cases indexInfo with
  | none => exact h
  | some idx =>
    rw [combinedLekKeySchema]
    induction idx.keySchema generalizing base with
    | nil => exact h
    | cons a rest ih =>
      rw [foldl_cons]
      apply ih
      split
      · exact h
      · exact mem_append_left _ h

theorem nodup_combinedLekKeySchema (hbase : (base.map (·.attributeName)).Nodup) (indexInfo) :
    ((combinedLekKeySchema base indexInfo).map (·.attributeName)).Nodup := by
  cases indexInfo with
  | none => exact hbase
  | some idx =>
    rw [combinedLekKeySchema]
    induction idx.keySchema generalizing base with
    | nil => exact hbase
    | cons a rest ih =>
      rw [foldl_cons]
      apply ih
      split
      · exact hbase
      rename_i hnew
      rw [map_append, nodup_append]
      refine ⟨hbase, by simp, ?_⟩
      rintro name hname _ hother rfl
      obtain ⟨k, hk, hkname⟩ := mem_map.mp hname
      refine hnew (any_eq_true.mpr ⟨k, hk, ?_⟩)
      simpa [hkname] using hother

theorem sortKeyIsEvaluable_attribute {sk : SortKeyCondition} {key}
    (h : sortKeyIsEvaluable sk key maps = true) :
    ∃ name v, conditionAttributeName sk.path maps = some name ∧ get? key name = some v := by
  rw [sortKeyIsEvaluable] at h
  split at h
  · cases h
  · rename_i v hv
    obtain ⟨name, hname, hget⟩ := bind_eq_some_iff.mp hv
    exact ⟨name, v, hname, hget⟩

namespace QueryRequest

/-- What table and index creation guarantee of the schemas, and the sort key condition on a table is
one on its sort key. -/
structure WellFormed (req : QueryRequest) : Prop where
  base : ValidKeySchema req.keyInfo.keySchema req.keyInfo.attributeDefinitions
  index : ∀ idx, req.indexInfo = some idx →
    ValidKeySchema idx.keySchema req.keyInfo.attributeDefinitions
  names : (req.keyInfo.keySchema.map (·.attributeName)).Nodup
  sortKey : req.indexInfo = none → ∀ sk, req.keyCondition.skCondition = some sk →
    ∀ ks, req.keyInfo.keySchema.find? (fun ks => ks.keyType = .range) = some ks →
      conditionAttributeName sk.path req.effectiveMaps = some ks.attributeName
  select : validateQuerySelectIndexSupport req.select req.indexInfo = .ok ()

def Row (req : QueryRequest) (row : Item) : Prop :=
  KeyedRow req.lekKeySchema req.keyInfo.attributeDefinitions row

def cursorKey (req : QueryRequest) (row : Item) : Item := extractKey row req.lekKeySchema

variable {req : QueryRequest} {row : Item}

theorem WellFormed.declared (hreq : req.WellFormed) (hks : ks ∈ req.lekKeySchema) :
    ∃ ty, declaredType req.keyInfo.attributeDefinitions ks.attributeName = some ty := by
  rcases mem_combinedLekKeySchema hks with hbase | ⟨idx, hidx, hmem⟩
  · exact isSome_iff_exists.mp (hreq.base.declared ks hbase)
  · exact isSome_iff_exists.mp ((hreq.index idx hidx).declared ks hmem)

variable {v : AttributeValue}

section

variable (hrow : req.Row row) (hreq : req.WellFormed)
include hrow hreq

theorem Row.value (hks : ks ∈ req.lekKeySchema) :
    ∃ ty v, declaredType req.keyInfo.attributeDefinitions ks.attributeName = some ty ∧
      get? row ks.attributeName = some v ∧ ty.matches v = true := by
  obtain ⟨ty, hty⟩ := hreq.declared hks
  obtain ⟨v, hv, hmatch⟩ := validateItemKeys_ok hrow.keys hks hty
  exact ⟨ty, v, hty, hv, hmatch⟩

theorem Row.get?_cursorKey {name} (h : get? (req.cursorKey row) name = some v) :
    get? row name = some v ∧ ∃ ty : ScalarAttributeType, ty.matches v = true := by
  rw [cursorKey, get?_extractKey] at h
  split at h
  · rename_i hname
    obtain ⟨ks, hks, rfl⟩ := mem_map.mp hname
    obtain ⟨ty, w, -, hw, hmatch⟩ := hrow.value hreq hks
    rw [h] at hw
    cases hw
    exact ⟨h, ty, hmatch⟩
  · cases h

theorem Row.resolvePath_cursorKey {path name} (hname : conditionAttributeName path maps = some name)
    (h : get? (req.cursorKey row) name = some v) :
    resolvePath path (req.cursorKey row) maps = resolvePath path row maps := by
  rw [resolvePath_eq hname, resolvePath_eq hname, h, (hrow.get?_cursorKey hreq h).1]

/-! ## The check against the key schema -/

theorem Row.validateQueryExclusiveStartKey_ok :
    validateQueryExclusiveStartKey (req.cursorKey row) req.keyInfo req.indexInfo = .ok () := by
  have hget {ks : KeySchemaElement} (hks : ks ∈ req.lekKeySchema) :
      get? (req.cursorKey row) ks.attributeName = get? row ks.attributeName := by
    rw [cursorKey, get?_extractKey, if_pos (mem_map_of_mem hks)]
  have hlength : (req.cursorKey row).length = req.lekKeySchema.length := by
    refine length_extractKey (nodup_combinedLekKeySchema hreq.names _) fun ks hks => ?_
    obtain ⟨-, v, -, hv, -⟩ := hrow.value hreq hks
    simp [hv]
  rw [validateQueryExclusiveStartKey, checkExclusiveStartKey, ← lekKeySchema, check_then_eq_ok]
  refine ⟨forM_eq_ok.mpr fun ks hks => ?_, ?_⟩
  · obtain ⟨-, v, -, hv, -⟩ := hrow.value hreq hks
    simp [hget hks, hv]
  rw [if_pos hlength]
  refine forM_eq_ok.mpr fun ks hks => ?_
  obtain ⟨ty, v, hty, hv, hmatch⟩ := hrow.value hreq hks
  simp [hget hks, hty, hv, hmatch]

/-! ## The partition -/

theorem Row.comparePartition_ne_differs {eqs : List KeyEquality}
    (hadmits : ∀ e ∈ eqs, KeyEquality.admits maps e row = true) (unknown) :
    comparePartition (req.cursorKey row) maps eqs unknown ≠ .differs := by
  induction eqs generalizing unknown with
  | nil => cases unknown <;> simp [comparePartition]
  | cons e rest ih =>
    have hrest := ih fun e he => hadmits e (.tail _ he)
    rw [comparePartition]
    split
    · rename_i wanted supplied hvalues
      have hsame : supplied = wanted := by
        obtain ⟨v, hv, hwanted⟩ := KeyEquality.admits_iff.mp (hadmits e (by simp))
        simp only [wantedAndSupplied, bind_eq_bind, bind_eq_some_iff] at hvalues
        obtain ⟨name, hname, w, hw, u, hu, h⟩ := hvalues
        cases h
        obtain ⟨hget, ty, hscalar⟩ := hrow.get?_cursorKey hreq hu
        rw [resolvePath_eq hname, hget] at hv
        rw [hw] at hwanted
        cases hwanted
        exact (walkPath_scalar hscalar hv).symm
      split
      · rw [if_neg (not_not.mpr hsame)]
        exact hrest unknown
      · exact hrest true
    · exact hrest true

end

/-! ## The sort key range -/

variable {bd : BigDecimalCrate} {sk : SortKeyCondition}

theorem evaluateCondition_sortKeyPredicate (hbd : bd.Documented) {key t}
    (hv : resolvePath sk.path key maps = .ok (some v)) (ht : sk.test maps = some t)
    (hpass : t.admits bd v = true) :
    (evaluateCondition bd key maps (sortKeyPredicate sk)).toOption ≠ some false := by
  cases sk with
  | compare path op value =>
    cases value <;> simp only [test, reduceCtorEq, map_eq_some_iff] at ht
    case placeholder name =>
    obtain ⟨w, hw, rfl⟩ := ht
    rw [SortKeyCondition.path] at hv
    obtain ⟨o, ho, haccepts⟩ := keyOrdered_iff.mp hpass
    rw [sortKeyPredicate, evaluateCondition_compare hbd hv hw ho, haccepts]
    rintro ⟨⟩
  | between path low high =>
    cases low <;> cases high <;>
      simp only [test, reduceCtorEq, bind_eq_bind, bind_eq_some_iff] at ht
    case placeholder.placeholder lowName highName =>
    obtain ⟨l, hl, h, hh, heq⟩ := ht
    cases heq
    rw [SortKeyCondition.path] at hv
    rw [KeyTest.admits, Bool.and_eq_true, keyOrdered_iff, keyOrdered_iff] at hpass
    obtain ⟨⟨lo, hlo, hge⟩, ⟨hi, hhi, hle⟩⟩ := hpass
    rw [sortKeyPredicate, evaluateCondition, evaluateWith, resolveToValue, hv,
      resolveToValue_placeholder hl, resolveToValue_placeholder hh]
    simp only [ok_bind]
    -- bounds the evaluator refuses are not a failed predicate
    cases checkBetweenBounds bd _ (.placeholder lowName) (.placeholder highName) (some l)
        (some h) with
    | error e => rintro ⟨⟩
    | ok u =>
      rw [placeholderNumeric_eq hl, placeholderNumeric_eq hh]
      have hvpn : placeholderNumeric (maps.getParsedNumeric bd) (.path path) = none := rfl
      rw [hvpn, compareValues_eq_accepts hbd hlo, compareValues_eq_accepts hbd hhi, hge, hle]
      rintro ⟨⟩
  | beginsWith path value =>
    cases value <;> simp only [test, reduceCtorEq, map_eq_some_iff] at ht
    case placeholder name =>
    obtain ⟨w, hw, rfl⟩ := ht
    rw [SortKeyCondition.path] at hv
    rw [sortKeyPredicate, evaluateCondition, evaluateWith, evaluateFunction,
      resolveToValue, hv, resolveToValue_placeholder hw]
    cases w <;> cases v <;> simp only [KeyTest.admits, Bool.false_eq_true] at hpass
    all_goals
      simp [checkBeginsWithOperand, beginsWithCheck, hpass, Except.toOption]

variable {kc : KeyCondition}

theorem Row.not_failsRangePredicate (hbd : bd.Documented)
    (hrow : req.Row row) (hreq : req.WellFormed)
    (hadmits : ∀ sk, kc.skCondition = some sk → sk.admits bd maps row = true) :
    failsRangePredicate bd (req.cursorKey row) kc maps = false := by
  rw [failsRangePredicate]
  cases hkc : kc.skCondition with
  | none => rfl
  | some sk =>
    by_cases heval : sortKeyIsEvaluable sk (req.cursorKey row) maps = true
    · obtain ⟨v, t, hv, ht, hpass⟩ := admits_iff.mp (hadmits sk hkc)
      obtain ⟨name, u, hname, hu⟩ := sortKeyIsEvaluable_attribute heval
      rw [← hrow.resolvePath_cursorKey hreq hname hu] at hv
      have hne := evaluateCondition_sortKeyPredicate hbd hv ht hpass
      simpa [heval] using hne
    · simp [heval]

/-! ## The far end -/

variable {kind : FarEnd}

/-- The bound at the end of iteration order is a placeholder; what the condition admits compares
with its value, and is on the near side of it or at it. -/
theorem farEndBound_side {forward bound t} (h : farEndBound sk forward = some (bound, kind))
    (ht : sk.test maps = some t) :
    ∃ name w, bound = .placeholder name ∧ get? maps.values name = some w ∧
      ∀ v, t.admits bd v = true → keyOrdered bd (if forward then .le else .ge) v w = true := by
  have hboth {v w : AttributeValue} (heq : keyOrdered bd .eq v w = true) (forward : Bool) :
      keyOrdered bd (if forward then .le else .ge) v w = true := by
    obtain ⟨o, ho, haccepts⟩ := keyOrdered_iff.mp heq
    refine keyOrdered_iff.mpr ⟨o, ho, ?_⟩
    cases o <;> cases forward <;> simp_all [CompareOp.accepts]
  cases sk with
  | compare path op value =>
    cases value <;> simp only [test, reduceCtorEq, map_eq_some_iff] at ht
    case placeholder name =>
    obtain ⟨w, hw, rfl⟩ := ht
    cases op <;> cases forward <;>
      simp only [farEndBound, reduceCtorEq] at h
    all_goals
      obtain ⟨rfl, -⟩ := h
      refine ⟨name, w, rfl, hw, fun v hv => ?_⟩
    · exact hboth hv false
    · exact hboth hv true
    all_goals exact hv
  | between path low high =>
    cases low <;> cases high <;>
      simp only [test, reduceCtorEq, bind_eq_bind, bind_eq_some_iff] at ht
    case placeholder.placeholder lowName highName =>
    obtain ⟨l, hl, u, hu, heq⟩ := ht
    cases heq
    cases forward <;> simp only [farEndBound, some.injEq] at h <;>
      obtain ⟨rfl, -⟩ := h
    · exact ⟨lowName, l, rfl, hl, fun v hv => (Bool.and_eq_true_iff.mp hv).1⟩
    · exact ⟨highName, u, rfl, hu, fun v hv => (Bool.and_eq_true_iff.mp hv).2⟩
  | beginsWith path value =>
    cases value <;> simp only [test, reduceCtorEq, map_eq_some_iff] at ht
    case placeholder name =>
    obtain ⟨w, hw, rfl⟩ := ht
    cases forward <;>
    obtain ⟨rfl, -⟩ := h
    exact ⟨name, w, rfl, hw, fun v hv => keyOrdered_ge_of_beginsWith hv⟩

theorem farEnd_eq_some {key shape} (h : farEnd bd key kc maps shape = some kind) :
    shape.onIndex = false ∧ ∃ sk bound, kc.skCondition = some sk ∧
      sortKeyIsEvaluable sk key maps = true ∧
      farEndBound sk shape.forward = some (bound, kind) ∧
      evaluateCondition bd key maps (.compare (.path sk.path) .eq bound) = .ok true := by
  have hguard {p : Prop} [Decidable p] {u : Unit} (hg : (guard p : Option Unit) = some u) : p := by
    by_contra hp
    simp [hp] at hg
  simp only [farEnd, bind_eq_bind, bind_eq_some_iff] at h
  obtain ⟨_, hindex, sk, hsk, _, heval, ⟨bound, _⟩, hbound, _, hat, h⟩ := h
  cases h
  refine ⟨by simpa using hguard hindex, sk, bound, hsk, hguard heval, hbound, ?_⟩
  have htrue := hguard hat
  cases heq : evaluateCondition bd key maps (.compare (.path sk.path) .eq bound) with
  | error e => simp [heq, Except.toOption] at htrue
  | ok b => simpa [heq, Except.toOption] using htrue

theorem Row.not_admits_past_farEnd (hbd : bd.Documented) (hrow : req.Row row)
    (hreq : req.WellFormed) {forward bound}
    (heval : sortKeyIsEvaluable sk (req.cursorKey row) maps = true)
    (hbound : farEndBound sk forward = some (bound, kind))
    (hat : evaluateCondition bd (req.cursorKey row) maps
      (.compare (.path sk.path) .eq bound) = .ok true) {later}
    (hadmits : sk.admits bd maps row = true) (hlater : sk.admits bd maps later = true) {w}
    (hv : resolvePath sk.path row maps = .ok (some v))
    (hw : resolvePath sk.path later maps = .ok (some w)) :
    keyOrder bd v w ≠ some (if forward then .lt else .gt) := by
  obtain ⟨_, t, hv', ht, hpass⟩ := admits_iff.mp hadmits
  obtain ⟨_, _, hw', ht', hpass'⟩ := admits_iff.mp hlater
  rw [hv] at hv'
  rw [hw] at hw'
  rw [ht] at ht'
  cases hv'
  cases hw'
  cases ht'
  obtain ⟨name, b, rfl, hb, hside⟩ := farEndBound_side hbound ht
  obtain ⟨o, ho, -⟩ := keyOrdered_iff.mp (hside v hpass)
  obtain ⟨attr, u, hname, hu⟩ := sortKeyIsEvaluable_attribute heval
  rw [evaluateCondition_compare hbd ((hrow.resolvePath_cursorKey hreq hname hu).trans hv) hb ho]
    at hat
  have heq : o = .eq := by simpa [CompareOp.accepts] using hat
  subst heq
  intro horder
  cases forward with
  | true =>
    have hlt := keyOrder_lt_of_lt_of_le horder (hside w hpass')
    rw [ho] at hlt
    cases hlt
  | false =>
    have hlt : keyOrder bd w v = some .lt := by
      rw [keyOrder_swap, horder]
      rfl
    have hgt := keyOrder_gt_of_lt_of_ge hlt (hside w hpass')
    rw [ho] at hgt
    cases hgt

theorem Row.validateStartKey_ok (hbd : bd.Documented) (hrow : req.Row row) (hreq : req.WellFormed)
    (hadmits : req.keyCondition.admits bd req.effectiveMaps row = true)
    (hend : pageEndsAtFarEnd bd (req.cursorKey row) req.keyCondition req.effectiveMaps req.shape =
      false) :
    req.validateStartKey bd (req.cursorKey row) = .ok () := by
  rw [KeyCondition.admits, Bool.and_eq_true, List.all_eq_true, List.all_eq_true] at hadmits
  obtain ⟨hpk, hsk⟩ := hadmits
  rw [pageEndsAtFarEnd, Bool.or_eq_false_iff, isSome_eq_false_iff, isNone_iff_eq_none] at hend
  obtain ⟨hhash, hfar⟩ := hend
  have hrange : failsRangePredicate bd (req.cursorKey row) req.keyCondition req.effectiveMaps =
      false :=
    hrow.not_failsRangePredicate hbd hreq fun sk h => hsk sk (by
      rw [KeyCondition.sortConditions, h]
      simp)
  have hpartition : partitionState (req.cursorKey row) req.keyCondition req.effectiveMaps ≠
      .differs := hrow.comparePartition_ne_differs hreq hpk false
  rw [validateStartKey, hrow.validateQueryExclusiveStartKey_ok hreq, validateQueryStartKeyBounds,
    hrange, hfar, hhash]
  simp [hpartition]

end QueryRequest

end ExtendDb
