import ExtendDb.Expression.Evaluator
import ExtendDb.Expression.UpdateNumbers
import ExtendDb.BigDecimal.Reference

/-!
# Laws of the condition operators

A condition does not depend on the cache of parsed numbers, and `<>`, IN, BETWEEN and NOT are what
`=`, `>=`, `<=` and the connectives make of them.
-/

namespace ExtendDb

open Fallible DecimalText

section

variable {bd : BigDecimalCrate} {item : Item} {maps : ExpressionMaps} {x y : Expr}
  {v w : AttributeValue}

/-! ## The cache -/

@[simp]
theorem placeholderNumeric_empty (e) : placeholderNumeric (fun _ => none) e = none := by
  cases e <;> rfl

theorem placeholderNumeric_or {n} (h : resolveToValue item maps x = .ok (some (.n n))) :
    (placeholderNumeric (maps.getParsedNumeric bd) x).or (bd.parse n) = bd.parse n := by
  cases x with
  | placeholder name =>
    rw [resolveToValue, ExpressionMaps.resolveValue] at h
    rw [placeholderNumeric, ExpressionMaps.getParsedNumeric]
    cases hget : OrdMap.get? maps.values name <;> rw [hget] at h <;> cases h
    exact Option.or_self
  | _ => rfl

theorem compareValues_cached (hx : resolveToValue item maps x = .ok (some v))
    (hy : resolveToValue item maps y = .ok (some w)) (op) :
    compareValues bd v w op (placeholderNumeric (maps.getParsedNumeric bd) x)
      (placeholderNumeric (maps.getParsedNumeric bd) y) = compareValues bd v w op none none := by
  cases v <;> cases w <;> try rfl
  simp only [compareValues, placeholderNumeric_or hx, placeholderNumeric_or hy, Option.none_or]

theorem evaluateIn_cached (hx : resolveToValue item maps x = .ok (some v)) (list) :
    evaluateIn bd (maps.getParsedNumeric bd) item maps v
      (placeholderNumeric (maps.getParsedNumeric bd) x) list =
      evaluateIn bd (fun _ => none) item maps v none list := by
  induction list with
  | nil => rfl
  | cons candidate rest ih =>
    rw [evaluateIn, evaluateIn]
    refine bind_congr_ok fun c hc => ?_
    cases c with
    | none => exact ih
    | some c => simp [compareValues_cached hx hc, ih]

theorem evaluateWith_eq (e) : evaluateWith bd (maps.getParsedNumeric bd) item maps e =
      evaluateWith bd (fun _ => none) item maps e := by
  cases e with
  | compare left op right =>
    rw [evaluateWith, evaluateWith]
    refine bind_congr_ok fun l hl => bind_congr_ok fun r hr => ?_
    cases l <;> cases r <;> try rfl
    simp [compareValues_cached hl hr]
  | and left right | or left right =>
    simp only [evaluateWith, evaluateWith_eq left, evaluateWith_eq right]
  | not inner => simp only [evaluateWith, evaluateWith_eq inner]
  | between operand low high =>
    rw [evaluateWith, evaluateWith]
    refine bind_congr_ok fun v hv => bind_congr_ok fun lo hlo => bind_congr_ok fun hi hhi => ?_
    have hbounds : checkBetweenBounds bd (maps.getParsedNumeric bd) low high lo hi =
        checkBetweenBounds bd (fun _ => none) low high lo hi := by
      unfold checkBetweenBounds
      split
      · simp only [compareValues_cached hlo hhi, placeholderNumeric_empty]
      · rfl
    rw [hbounds]
    cases v <;> cases lo <;> cases hi <;> try rfl
    simp [compareValues_cached hv hlo, compareValues_cached hv hhi]
  | «in» operand list =>
    rw [evaluateWith, evaluateWith]
    refine bind_congr_ok fun v hv => ?_
    cases v with
    | none => rfl
    | some v => simp [evaluateIn_cached hv]
  | _ => rfl

/-! ## The operators -/

theorem compareValues_ne (hv : ∀ n, v = .n n → (bd.parse n).isSome)
    (hw : ∀ n, w = .n n → (bd.parse n).isSome) :
    compareValues bd v w .ne none none = !compareValues bd v w .eq none none := by
  cases v <;> cases w
  case n.n l r =>
    obtain ⟨a, ha⟩ := Option.isSome_iff_exists.mp (hv l rfl)
    obtain ⟨b, hb⟩ := Option.isSome_iff_exists.mp (hw r rfl)
    simp [compareValues, ha, hb, CompareOp.accepts, bne]
  all_goals
    simp only [compareValues]
    first | rfl | (split_ifs <;> rfl)

theorem resolveToValue_parses (hbd : bd.Documented)
    (hitem : item.AllNumbers fun n => (bd.parse n).isSome)
    (hmaps : maps.AllNumbers fun n => (bd.parse n).isSome)
    (hx : resolveToValue item maps x = .ok (some v)) (n) (hn : v = .n n) :
    (bd.parse n).isSome := by
  subst hn
  cases x with
  | path p => exact AttributeValue.allNumbers_n.mp (resolvePath_allNumbers hitem hx)
  | placeholder name =>
    rw [resolveToValue, ExpressionMaps.resolveValue] at hx
    cases hget : OrdMap.get? maps.values name <;> rw [hget] at hx <;> cases hx
    exact AttributeValue.allNumbers_n.mp (hmaps _ (OrdMap.mem_of_get? hget))
  | function name args =>
    rw [resolveToValue] at hx
    split at hx
    · unfold evaluateSize at hx
      split at hx
      · obtain ⟨value, -, hx⟩ := unbind hx
        obtain ⟨size, -, hsize⟩ := Option.map_eq_some_iff.mp (Except.ok.inj hx)
        cases hsize
        have hne : Nat.toDigits 10 size ≠ [] := by simp
        have hparse := hbd.parse_plain false _ 0 hne (allDigits_toDigits size)
        rw [plain_zero hne] at hparse
        exact Option.isSome_iff_exists.mpr ⟨_, hparse⟩
      · cases hx
    · cases hx
  | _ => cases hx

/-- `x = y OR x = z …`. -/
def equalsAny (x : Expr) : Expr → List Expr → Expr
  | y, [] => .compare x .eq y
  | y, z :: zs => .or (.compare x .eq y) (equalsAny x z zs)

theorem equalsAny_missing (hx : resolveToValue item maps x = .ok none) (y ys) :
    evaluateWith bd (fun _ => none) item maps (equalsAny x y ys) = .ok false ↔
      ∀ c ∈ y :: ys, ∃ r, resolveToValue item maps c = .ok r := by
  induction ys generalizing y with
  | nil => cases hy : resolveToValue item maps y <;> simp [equalsAny, evaluateWith, hx, hy]
  | cons z zs ih =>
    rw [List.forall_mem_cons, ← ih z]
    cases hy : resolveToValue item maps y <;> simp [equalsAny, evaluateWith, hx, hy]

theorem evaluateIn_present (hx : resolveToValue item maps x = .ok (some v)) (y ys) :
    evaluateWith bd (fun _ => none) item maps (equalsAny x y ys) =
      evaluateIn bd (fun _ => none) item maps v none (y :: ys) := by
  induction ys generalizing y with
  | nil =>
    simp only [equalsAny, evaluateWith, hx, evaluateIn, ok_bind]
    refine bind_congr_ok fun r _ => ?_
    cases r with
    | none => rfl
    | some r => cases hr : compareValues bd v r .eq none none <;> simp [hr]
  | cons z zs ih =>
    rw [equalsAny, evaluateWith, ih, evaluateWith, hx, evaluateIn.eq_2 _ _ _ _ _ _ y]
    cases resolveToValue item maps y with
    | error e => rfl
    | ok r =>
      cases r with
      | none => rfl
      | some r => cases hr : compareValues bd v r .eq none none <;> simp [hr]

/-- The laws of the operators.  IN of a missing operand resolves no candidate, so there, and only
there, they have to resolve. -/
theorem condition_laws (hbd : bd.Documented) (hitem : item.AllNumbers fun n => (bd.parse n).isSome)
    (hmaps : maps.AllNumbers fun n => (bd.parse n).isSome) :
    (∀ x y, evaluateCondition bd item maps (.compare x .ne y) =
      evaluateCondition bd item maps (.not (.compare x .eq y))) ∧
    (∀ x y ys, evaluateCondition bd item maps (.in x (y :: ys)) =
        evaluateCondition bd item maps (equalsAny x y ys) ↔
      (resolveToValue item maps x = .ok none →
        ∀ c ∈ y :: ys, ∃ r, resolveToValue item maps c = .ok r)) ∧
    (∀ x y z b, evaluateCondition bd item maps (.between x y z) = .ok b →
      evaluateCondition bd item maps (.and (.compare x .ge y) (.compare x .le z)) = .ok b) ∧
    (∀ e, evaluateCondition bd item maps (.not (.not e)) = evaluateCondition bd item maps e) ∧
    ∀ e, evaluateCondition bd item maps e = evaluateWith bd (fun _ => none) item maps e := by
  unfold evaluateCondition
  simp only [evaluateWith_eq]
  refine ⟨fun x y => ?_, fun x y ys => ?_, fun x y z b h => ?_, fun e => ?_, fun _ => trivial⟩
  · simp only [evaluateWith]
    cases hx : resolveToValue item maps x with
    | error e => rfl
    | ok v =>
      cases hy : resolveToValue item maps y with
      | error e => rfl
      | ok w =>
        cases v <;> cases w <;> try rfl
        have hne := compareValues_ne (resolveToValue_parses hbd hitem hmaps hx)
          (resolveToValue_parses hbd hitem hmaps hy)
        simp [hne]
  · rw [evaluateWith]
    cases hx : resolveToValue item maps x with
    | error e => cases ys <;> simp [equalsAny, evaluateWith, hx]
    | ok v =>
      cases v with
      | none =>
        exact eq_comm.trans ((equalsAny_missing hx y ys).trans ⟨fun h _ => h, fun h => h rfl⟩)
      | some v =>
        rw [evaluateIn_present hx, placeholderNumeric_empty]
        exact iff_of_true rfl nofun
  · rw [evaluateWith] at h
    obtain ⟨v, hv, h⟩ := unbind h
    obtain ⟨lo, hlo, h⟩ := unbind h
    obtain ⟨hi, hhi, h⟩ := unbind h
    replace h := ok_of_check h
    simp only [evaluateWith, hv, hlo, hhi, ok_bind]
    rcases v with _ | v <;> rcases lo with _ | lo <;> rcases hi with _ | hi <;> cases h <;> simp
    cases compareValues bd v lo .ge none none <;> rfl
  · simp only [evaluateWith]
    cases evaluateWith bd (fun _ => none) item maps e with
    | error e => rfl
    | ok b => simp

theorem condition_laws_reference :
    evaluateCondition .reference [("a", .n "1")] ⟨[], [("v", .n "1.0")]⟩
      (.in (.path [.attr "a"]) [.placeholder "v"]) =
      evaluateCondition .reference [("a", .n "1")] ⟨[], [("v", .n "1.0")]⟩
        (.compare (.path [.attr "a"]) .eq (.placeholder "v")) :=
  ((condition_laws BigDecimalCrate.reference_documented (by decide) (by decide)).2.1 _ _ []).mpr
    nofun

/-- `a IN (:v)` is false of an item without `a`, and `a = :v` fails, where `:v` is not defined. -/
theorem in_missing_unresolved :
    evaluateCondition .reference [] ⟨[], []⟩ (.in (.path [.attr "a"]) [.placeholder "v"]) =
      .ok false ∧
    ∃ e, evaluateCondition .reference [] ⟨[], []⟩
      (.compare (.path [.attr "a"]) .eq (.placeholder "v")) = .error e :=
  ⟨rfl, _, rfl⟩

end

end ExtendDb
