import ExtendDb.Theory.PrefixRange
import ExtendDb.Expression.ClauseMeaning
import ExtendDb.Storage.QueryScan

/-!
# Comparisons of columns

The comparisons SQLite makes on a sort key column decide the sort key condition they were built
from, up to one class of rows: a string that goes on behind the prefix of `begins_with` with the
highest code point is left out.
-/

namespace ExtendDb

open Fallible Utf8 SortKeyCondition KeyTest PrefixRange

/-! ## Operators -/

theorem accepts_ge_text (s t) :
    CompareOp.ge.accepts (compareBytes s t) = true ↔ ¬s.toList < t.toList :=
  accepts_ge_iff (compareBytes_compares s t)

theorem accepts_lt_text (s t) :
    CompareOp.lt.accepts (compareBytes s t) = true ↔ s.toList < t.toList :=
  accepts_lt_iff (compareBytes_compares s t)

/-! ## Prefixes -/

theorem le_maxChar (c) : c ≤ maxChar := by
  change c.val ≤ maxChar.val
  rw [UInt32.le_iff_toNat_le]
  have hvalid := c.valid
  have hmax : maxChar.val.toNat = 1114111 := by decide
  rcases hvalid with h | ⟨-, h⟩ <;> omega

theorem uint8_next {b : UInt8} (h : b < 0xFF) : b < b + 1 ∧ ∀ c, b < c → b + 1 ≤ c := by
  have hb : b.toNat < 255 := UInt8.lt_iff_toNat_lt.mp h
  have hsucc : (b + 1).toNat = b.toNat + 1 := by
    rw [UInt8.toNat_add, UInt8.toNat_one]
    omega
  refine ⟨?_, fun c hc => ?_⟩
  · rw [UInt8.lt_iff_toNat_lt]
    omega
  · rw [UInt8.le_iff_toNat_le]
    rw [UInt8.lt_iff_toNat_lt] at hc
    omega

def nextByte (b : UInt8) : Option UInt8 := if b < 0xFF then some (b + 1) else none

theorem binaryPrefixUpperBound_eq_raise (p) : binaryPrefixUpperBound p = raise nextByte p := by
  induction p with
  | nil => rfl
  | cons b p ih =>
    rw [binaryPrefixUpperBound, raise, ← ih, nextByte]
    cases binaryPrefixUpperBound p <;> by_cases hb : b < 0xFF <;> simp [hb]

theorem nextByte_eq_none {b} : nextByte b = none ↔ b = 0xFF := by
  have hb := b.toNat_lt
  have hff : (0xFF : UInt8).toNat = 255 := rfl
  rw [nextByte, ite_eq_right_iff, UInt8.lt_iff_toNat_lt, ← UInt8.toNat_inj]
  simp only [reduceCtorEq, imp_false]
  omega

theorem binaryPrefixUpperBound_isUpperBound (p : Bytes) :
    PrefixRange.IsUpperBound p (binaryPrefixUpperBound p) := by
  rw [binaryPrefixUpperBound_eq_raise]
  refine raise_isUpperBound (fun a b hnext => ?_) (fun a hnext c => ?_) p
  · unfold nextByte at hnext
    split at hnext
    · rename_i ha
      cases hnext
      exact uint8_next ha
    · cases hnext
  · rw [nextByte_eq_none.mp hnext, UInt8.le_iff_toNat_le]
    exact Nat.le_of_lt_succ c.toNat_lt

/-! ## Values -/

theorem BigDecimalCrate.Documented.parse_numberValue {bd : BigDecimalCrate} (hbd : bd.Documented)
    {n} (h : IsNormal n) :
    ∃ d, bd.parse n = some d ∧ d.Supported ∧ numberValue n = some d.value := by
  obtain ⟨d, hparse, hsupported⟩ := hbd.parse_supported h
  refine ⟨d, hparse, hsupported, ?_⟩
  obtain ⟨negative, ds, scale, hne, hd, rfl⟩ := h.exists_plain
  rw [hbd.parse_plain negative ds scale hne hd] at hparse
  rw [numberValue, BigDecimal.readText_plain negative hd]
  cases hparse
  rfl

variable {v : AttributeValue} {maps : ExpressionMaps}

theorem resolveExprToAv_ok {expr} (h : resolveExprToAv expr maps = .ok v) :
    ∃ name, expr = .placeholder name ∧ OrdMap.get? maps.values name = some v := by
  unfold resolveExprToAv at h
  split at h
  · rename_i name
    refine ⟨name, rfl, ?_⟩
    unfold ExpressionMaps.resolveValue at h
    split at h
    · rename_i hget
      cases h
      exact hget
    · cases h
  · cases h

variable {ty : ScalarAttributeType} {vk : SortKeyValue}

theorem parseSk_matches {bd} (h : parseSk bd v ty = .ok vk) : ty.matches v = true := by
  unfold parseSk at h
  split at h <;> first | rfl | cases h

variable {bd : BigDecimalCrate} (hbd : bd.Documented)
include hbd

variable {w : AttributeValue}

theorem keyCompare_eq_cmp {wk : SortKeyValue}
    (hv : parseSk bd v ty = .ok vk) (hw : parseSk bd w ty = .ok wk) (hnv : NormalKeyValue v)
    (hnw : NormalKeyValue w) : keyCompare v w = some ((skBound bd vk).cmp (skBound bd wk)) := by
  cases ty with
  | s | b =>
    cases v <;> cases hv
    cases w <;> cases hw
    rfl
  | n =>
    cases v <;> try cases hv
    cases w <;> try cases hw
    rename_i x y
    obtain ⟨a, hpa, hsa, ha⟩ := hbd.parse_numberValue (hnv x rfl)
    obtain ⟨b, hpb, hsb, hb⟩ := hbd.parse_numberValue (hnw y rfl)
    rw [parseSk, hpa] at hv
    rw [parseSk, hpb] at hw
    cases hv
    cases hw
    simp only [keyCompare, ha, hb, skBound, BoundValue.cmp,
      compareBytes_encodeOrderableNumber hbd hsa hsb]
    rfl

theorem keyRelated_iff_accepts {wk : SortKeyValue} (hv : parseSk bd v ty = .ok vk)
    (hw : parseSk bd w ty = .ok wk) (hnv : NormalKeyValue v) (hnw : NormalKeyValue w) (op) :
    KeyRelated op v w ↔ op.accepts ((skBound bd vk).cmp (skBound bd wk)) = true := by
  simp [KeyRelated, keyCompare_eq_cmp hbd hv hw hnv hnw]

/-- The comparisons built from a sort key condition pass on a column exactly when the condition
does on its value and does not cut it off. -/
theorem buildSkSqlAndBinds_iff {cond : SortKeyCondition} {tests}
    (htests : buildSkSqlAndBinds bd cond ty maps = .ok tests) (hv : parseSk bd v ty = .ok vk)
    (hnv : NormalKeyValue v) (hmaps : ∀ e ∈ maps.values, NormalKeyValue e.2) :
    (∀ test ∈ tests, test.1.accepts ((skBound bd vk).cmp test.2) = true) ↔
      ∃ t, cond.test maps = some t ∧ t.Passes v ∧ ¬t.CutOff v := by
  have hrelated {name : String} {w : AttributeValue} {wk : SortKeyValue}
      (hget : OrdMap.get? maps.values name = some w) (hw : parseSk bd w ty = .ok wk) :=
    keyRelated_iff_accepts hbd hv hw hnv (hmaps _ (OrdMap.mem_of_get? hget))
  cases cond with
  | compare path op value =>
    obtain ⟨w, hvalue, h⟩ := unbind htests
    obtain ⟨wk, hw, h⟩ := unbind h
    cases h
    obtain ⟨name, rfl, hget⟩ := resolveExprToAv_ok hvalue
    simp [test, hget, Passes, CutOff, hrelated hget hw]
  | between path low high =>
    obtain ⟨l, hlow, h⟩ := unbind htests
    simp only [bind_eq_ok] at h
    obtain ⟨lk, hl, u, hhigh, uk, hu, h⟩ := h
    cases h
    obtain ⟨lowName, rfl, hgetLow⟩ := resolveExprToAv_ok hlow
    obtain ⟨highName, rfl, hgetHigh⟩ := resolveExprToAv_ok hhigh
    have hle := (keyRelated_reverse .ge v l).trans (hrelated hgetLow hl .ge)
    rw [reverseComparator] at hle
    simp [test, hgetLow, hgetHigh, Passes, CutOff, hle, hrelated hgetHigh hu]
  | beginsWith path value =>
    obtain ⟨w, hvalue, hbody⟩ := unbind htests
    obtain ⟨wk, hw, h⟩ := unbind hbody
    obtain ⟨name, rfl, hget⟩ := resolveExprToAv_ok hvalue
    have hmatches := parseSk_matches hw
    have hmatches' := parseSk_matches hv
    cases ty with
    | s =>
      cases w <;> cases hmatches
      cases v <;> cases hmatches'
      cases hw
      cases hv
      cases h
      rename_i p x
      have hrange := range_push_iff le_maxChar p.toList x.toList
      simpa [test, hget, Passes, CutOff, skBound,
        BoundValue.cmp, accepts_ge_text, accepts_lt_text, maxChar] using hrange
    | n =>
      cases w <;> cases hmatches
      rw [parseSk] at hw
      split at hw
      · cases hw
        cases h
      · cases hw
    | b =>
      cases w <;> cases hmatches
      cases v <;> cases hmatches'
      cases hw
      cases hv
      rename_i p x
      have hbound := binaryPrefixUpperBound_isUpperBound p
      simp only at h
      cases hupper : binaryPrefixUpperBound p with
      | some upper =>
        rw [hupper] at h hbound
        cases h
        simpa [test, hget, Passes, CutOff, skBound,
          BoundValue.cmp, accepts_ge_iff (compare_bytes_compares _ _),
          accepts_lt_iff (compare_bytes_compares _ _)] using hbound x
      | none =>
        rw [hupper] at h hbound
        cases h
        simpa [test, hget, Passes, CutOff, skBound,
          BoundValue.cmp, accepts_ge_iff (compare_bytes_compares _ _)] using hbound x

end ExtendDb
