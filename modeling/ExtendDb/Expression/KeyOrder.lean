import ExtendDb.Expression.Evaluator
import ExtendDb.Expression.Multipart

/-!
# Key conditions by the order of key values

The order of key values as the `bigdecimal` crate reads their numbers, the items a key condition
admits by it, and the agreement of the expression evaluator with both.
-/

namespace ExtendDb

open Utf8 Option

def placeholderValue (expr : Expr) (maps : ExpressionMaps) : Option AttributeValue :=
  match expr with
  | .placeholder name => (maps.resolveValue name).toOption
  | _ => none

section

variable (bd : BigDecimalCrate)

def keyOrder : AttributeValue → AttributeValue → Option Ordering
  | .s x, .s y => some (compareBytes x y)
  | .n x, .n y => do
    let a ← bd.parse x
    let b ← bd.parse y
    pure (compare a.value b.value)
  | .b x, .b y => some (compare x y)
  | _, _ => none

def keyOrdered (op : CompareOp) (v w : AttributeValue) : Bool := (keyOrder bd v w).any op.accepts

def KeyTest.admits : KeyTest → AttributeValue → Bool
  | .compare op w, v => keyOrdered bd op v w
  | .reversed w op, v => keyOrdered bd op w v
  | .between low high, v => keyOrdered bd .ge v low && keyOrdered bd .le v high
  | .beginsWith (.s p), .s x => p.toList.isPrefixOf x.toList
  | .beginsWith (.b p), .b x => p.isPrefixOf x
  | .beginsWith _, _ => false

def SortKeyCondition.admits (maps : ExpressionMaps) (cond : SortKeyCondition) (item : Item) :
    Bool :=
  match resolvePath cond.path item maps with
  | .ok (some v) => (cond.test maps).any (fun t => t.admits bd v)
  | _ => false

def KeyEquality.admits (maps : ExpressionMaps) (e : KeyEquality) (item : Item) : Bool :=
  match resolvePath e.1 item maps, placeholderValue e.2 maps with
  | .ok (some v), some w => v == w
  | _, _ => false

def KeyCondition.admits (maps : ExpressionMaps) (kc : KeyCondition) (item : Item) : Bool :=
  kc.pkEqualities.all (KeyEquality.admits maps · item) &&
    kc.sortConditions.all (SortKeyCondition.admits bd maps · item)

end

/-! ## The order -/

section

variable {bd : BigDecimalCrate} {o : Ordering} {w : AttributeValue} {v : AttributeValue}

theorem keyOrder_eq_some (h : keyOrder bd v w = some o) :
    (∃ x y, v = .s x ∧ w = .s y ∧ o.Compares x.toList y.toList) ∨
    (∃ x y a b, v = .n x ∧ w = .n y ∧ bd.parse x = some a ∧ bd.parse y = some b ∧
      o.Compares a.value b.value) ∨
    (∃ x y, v = .b x ∧ w = .b y ∧ o.Compares x y) := by
  cases v <;> cases w <;> simp only [keyOrder, reduceCtorEq] at h
  case s.s x y =>
    cases h
    exact .inl ⟨x, y, rfl, rfl, compareBytes_compares x y⟩
  case n.n x y =>
    obtain ⟨a, ha, h⟩ := bind_eq_some_iff.mp h
    obtain ⟨b, hb, h⟩ := bind_eq_some_iff.mp h
    cases h
    exact .inr (.inl ⟨x, y, a, b, rfl, rfl, ha, hb, (compare_iff _ _).mp rfl⟩)
  case b.b x y =>
    cases h
    exact .inr (.inr ⟨x, y, rfl, rfl, compare_bytes_compares x y⟩)

theorem keyOrder_scalar (h : keyOrder bd v w = some o) :
    ∃ ty : ScalarAttributeType, ty.matches v = true ∧ ty.matches w = true := by
  obtain ⟨x, y, rfl, rfl, -⟩ | ⟨x, y, a, b, rfl, rfl, -⟩ | ⟨x, y, rfl, rfl, -⟩ :=
    keyOrder_eq_some h
  · exact ⟨.s, rfl, rfl⟩
  · exact ⟨.n, rfl, rfl⟩
  · exact ⟨.b, rfl, rfl⟩

theorem keyOrder_s {x y} (h : o.Compares x.toList y.toList) : keyOrder bd (.s x) (.s y) = some o :=
  congrArg some ((compareBytes_compares x y).inj h)

theorem keyOrder_n {x y a b} (ha : bd.parse x = some a) (hb : bd.parse y = some b)
    (h : o.Compares a.value b.value) :
    keyOrder bd (.n x) (.n y) = some o := by
  rw [keyOrder, ha, hb]
  exact congrArg some (((compare_iff _ _).mp rfl : (compare a.value b.value).Compares _ _).inj h)

theorem keyOrder_b {x y} (h : o.Compares x y) : keyOrder bd (.b x) (.b y) = some o :=
  congrArg some ((compare_bytes_compares x y).inj h)

theorem keyOrdered_iff {op} :
    keyOrdered bd op v w = true ↔ ∃ o, keyOrder bd v w = some o ∧ op.accepts o = true := by
  rw [keyOrdered]
  cases keyOrder bd v w <;> simp

theorem Compares.trans {α : Type} [LinearOrder α] {a b c : α} {d} (hab : d.Compares a b)
    (hbc : o.Compares b c) (ho : o = d ∨ o = .eq) : d.Compares a c := by
  obtain rfl | rfl := ho
  · cases o with
    | lt => exact lt_trans hab hbc
    | eq => exact .trans hab hbc
    | gt => exact gt_trans hab hbc
  · cases hbc
    exact hab

theorem keyOrder_trans {u d} (huv : keyOrder bd u v = some d) (hvw : keyOrder bd v w = some o)
    (ho : o = d ∨ o = .eq) : keyOrder bd u w = some d := by
  obtain ⟨x, y, rfl, rfl, hxy⟩ | ⟨x, y, a, b, rfl, rfl, ha, hb, hxy⟩ | ⟨x, y, rfl, rfl, hxy⟩ :=
    keyOrder_eq_some huv <;>
  obtain ⟨_, z, hv, rfl, hyz⟩ | ⟨_, z, _, c, hv, rfl, hb', hc, hyz⟩ | ⟨_, z, hv, rfl, hyz⟩ :=
    keyOrder_eq_some hvw <;> cases hv
  · exact keyOrder_s (Compares.trans hxy hyz ho)
  · rw [hb] at hb'
    cases hb'
    exact keyOrder_n ha hc (Compares.trans hxy hyz ho)
  · exact keyOrder_b (Compares.trans hxy hyz ho)

theorem keyOrder_swap (v w) : keyOrder bd w v = (keyOrder bd v w).map Ordering.swap := by
  cases v <;> cases w <;> try rfl
  case s.s x y => exact congrArg some (compareBytes_swap x y)
  case n.n x y =>
      simp only [keyOrder]
      cases bd.parse x <;> cases bd.parse y <;> try rfl
      rename_i a b
      have hswap : compare b.value a.value = (compare a.value b.value).swap :=
        ((compare_iff _ _).mp rfl : (compare b.value a.value).Compares _ _).inj
          (Ordering.compares_swap.mpr ((compare_iff _ _).mp rfl))
      exact congrArg some hswap
  case b.b x y => exact congrArg some (compare_bytes_swap x y)

theorem keyOrder_self_ne_lt (v) : keyOrder bd v v ≠ some .lt := by
  intro h
  have hswap : keyOrder bd v v = (keyOrder bd v v).map .swap := keyOrder_swap v v
  rw [h] at hswap
  cases hswap

theorem keyOrder_lt_of_lt_of_le {u} (huv : keyOrder bd u v = some .lt)
    (hvw : keyOrdered bd .le v w = true) : keyOrder bd u w = some .lt := by
  obtain ⟨o, ho, hle⟩ := keyOrdered_iff.mp hvw
  refine keyOrder_trans huv ho ?_
  cases o <;> simp_all [CompareOp.accepts]

theorem keyOrder_gt_of_lt_of_ge {u} (hvu : keyOrder bd v u = some .lt)
    (hvw : keyOrdered bd .ge v w = true) : keyOrder bd u w = some .gt := by
  obtain ⟨o, ho, hge⟩ := keyOrdered_iff.mp hvw
  have huv : keyOrder bd u v = some .gt := by rw [keyOrder_swap, hvu]; rfl
  refine keyOrder_trans huv ho ?_
  cases o <;> simp_all [CompareOp.accepts]

theorem keyOrdered_ge_of_beginsWith {p} (h : (KeyTest.beginsWith p).admits bd v = true) :
    keyOrdered bd .ge v p = true := by
  cases p <;> cases v <;> simp only [KeyTest.admits, Bool.false_eq_true] at h
  case s.s p x =>
    rw [keyOrdered, keyOrder, any_some, accepts_ge_iff (compareBytes_compares x p)]
    exact (List.isPrefixOf_iff_prefix.mp h).le
  case b.b p x =>
    rw [keyOrdered, keyOrder, any_some, accepts_ge_iff (compare_bytes_compares x p)]
    exact (List.isPrefixOf_iff_prefix.mp h).le

/-! ## The evaluator -/

def parsedNumeric (bd : BigDecimalCrate) : AttributeValue → Option BigDecimal
  | .n n => bd.parse n
  | _ => none

variable {maps : ExpressionMaps} {name : String}

theorem placeholderNumeric_eq (h : OrdMap.get? maps.values name = some w) :
    placeholderNumeric (maps.getParsedNumeric bd) (.placeholder name) = parsedNumeric bd w := by
  rw [placeholderNumeric, ExpressionMaps.getParsedNumeric, h]
  cases w <;> rfl

theorem compareValues_eq_accepts (hbd : bd.Documented) (h : keyOrder bd v w = some o) (op) :
    compareValues bd v w op none (parsedNumeric bd w) = op.accepts o := by
  cases v <;> cases w <;> simp only [keyOrder, reduceCtorEq] at h
  case s.s x y =>
    cases h
    rfl
  case n.n x y =>
    obtain ⟨a, ha, h⟩ := bind_eq_some_iff.mp h
    obtain ⟨b, hb, h⟩ := bind_eq_some_iff.mp h
    cases h
    have hcmp : bd.cmp a b = compare a.value b.value := by
      rw [hbd.cmp_eq]
      exact (BigDecimal.exactCmp_compares a b).inj ((compare_iff _ _).mp rfl)
    simp [compareValues, parsedNumeric, ha, hb, hcmp]
  case b.b x y =>
    cases h
    rfl

theorem resolveToValue_placeholder (h : OrdMap.get? maps.values name = some w) (item) :
    resolveToValue item maps (.placeholder name) = .ok (some w) := by
  simp [resolveToValue, ExpressionMaps.resolveValue, h]

variable {item : Item}

theorem evaluateCondition_compare (hbd : bd.Documented) {path}
    (hv : resolvePath path item maps = .ok (some v)) (hw : OrdMap.get? maps.values name = some w)
    (ho : keyOrder bd v w = some o) (op) :
    evaluateCondition bd item maps (.compare (.path path) op (.placeholder name)) =
      .ok (op.accepts o) := by
  rw [evaluateCondition, evaluateWith, resolveToValue, hv, resolveToValue_placeholder hw]
  exact congrArg Except.ok (by
    rw [placeholderNumeric_eq hw]
    exact compareValues_eq_accepts hbd ho op)

theorem SortKeyCondition.admits_iff {cond : SortKeyCondition} :
    cond.admits bd maps item = true ↔ ∃ v t, resolvePath cond.path item maps = .ok (some v) ∧
      cond.test maps = some t ∧ t.admits bd v = true := by
  rw [admits]
  split
  · rename_i v hv
    cases cond.test maps <;> simp [hv]
  · rename_i hnone
    simp only [Bool.false_eq_true, false_iff, not_exists, not_and]
    exact fun v t hv => absurd hv (hnone v)

theorem KeyEquality.admits_iff {e} :
    admits maps e item = true ↔ ∃ v, resolvePath e.1 item maps = .ok (some v) ∧
      placeholderValue e.2 maps = some v := by
  rw [admits]
  split
  · rename_i v w hv hw
    rw [beq_iff_eq, hv, hw]
    exact ⟨fun h => ⟨v, rfl, by rw [h]⟩, fun ⟨u, hu, hwu⟩ => by cases hu; cases hwu; rfl⟩
  · rename_i hnone
    simp only [Bool.false_eq_true, false_iff, not_exists, not_and]
    exact fun v hv hw => hnone v v hv hw

end

end ExtendDb
