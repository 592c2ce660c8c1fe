import ExtendDb.Expression.UpdateNumbers
import ExtendDb.BigDecimal.Reference

/-!
# Update statements and the normal form of numbers

SET arithmetic and ADD store the text the decimal crate prints, not its normal form.
-/

namespace ExtendDb

open Fallible BigDecimal

def BigDecimal.exact : ArithOp → BigDecimal → BigDecimal → BigDecimal
  | .add => exactAdd
  | .sub => exactSub

theorem BigDecimal.exact_scale (op a b) : (exact op a b).scale = max a.scale b.scale := by
  cases op <;> rfl

section

variable (bd : BigDecimalCrate) (maps : ExpressionMaps)

def PrintsNormal (d : BigDecimal) : Prop := bd.exponentForm d = false ∧ d.NoTrailingZero

def numberOf : AttributeValue → Option BigDecimal
  | .n t => bd.parse t
  | _ => none

def exactValue (item : Item) : Expr → Option BigDecimal
  | .placeholder name => (OrdMap.get? maps.values name).bind (numberOf bd)
  | .path elements =>
    match resolvePath elements item maps with
    | .ok (some v) => numberOf bd v
    | _ => none
  | .arithmetic left op right =>
    match exactValue item left, exactValue item right with
    | some a, some b => some (exact op a b)
    | _, _ => none
  | .function "if_not_exists" [path, value] =>
    match existingValue path item maps with
    | .ok (some v) => numberOf bd v
    | .ok none => exactValue item value
    | .error _ => none
  | _ => none
termination_by structural e => e

def ExactNormal (item : Item) : Expr → Prop
  | .arithmetic left op right =>
    ∀ d, exactValue bd maps item (.arithmetic left op right) = some d → PrintsNormal bd d
  | .function "if_not_exists" [path, value] =>
    existingValue path item maps = .ok none → ExactNormal item value
  | _ => True
termination_by structural e => e

def AddNormal (item : Item) : UpdateAction → Prop
  | .add path value =>
    match resolvePath path item maps with
    | .ok none => ExactNormal bd maps item value
    | .ok (some (.n existing)) => ∀ a b, bd.parse existing = some a →
        exactValue bd maps item value = some b → PrintsNormal bd (a.exactAdd b)
    | _ => True
  | _ => True

/-- Every SET value, on the item before the statement, and every ADD, on the item before that
action, prints normal. -/
structure NormalArithmetic (actions : List UpdateAction) (item : Item) : Prop where
  sets : ∀ path value, .set path value ∈ actions → ExactNormal bd maps item value
  adds : ∀ afterSet afterRemove, actions.foldlM (setStep bd maps item) item = .ok afterSet →
    actions.foldlM (removeStep maps) afterSet = .ok afterRemove →
    RunSatisfies (addStep bd maps) (AddNormal bd maps) actions afterRemove

end

section

variable {bd : BigDecimalCrate} {maps : ExpressionMaps} {item : Item}

theorem BigDecimalCrate.Documented.compute_eq (hbd : bd.Documented) (op a b) :
    bd.compute op a b = exact op a b := by
  cases op
  · exact hbd.add_eq a b
  · exact hbd.sub_eq a b

variable {v : AttributeValue}

theorem resolveValueFor_get {name exprType} (h : maps.resolveValueFor name exprType = .ok v) :
    OrdMap.get? maps.values name = some v := by
  unfold ExpressionMaps.resolveValueFor at h
  split at h
  · rename_i hget
    cases h
    exact hget
  · cases h

variable (hbd : bd.PrintsDigits) (hitem : item.AllNumbers IsNormal)
  (hvalues : maps.AllNumbers IsNormal)
include hbd hitem hvalues

variable {e : Expr}

theorem evaluateSetValue_exact {t} (h : evaluateSetValue bd item maps e = .ok (.n t)) :
    ∃ d, bd.parse t = some d ∧ exactValue bd maps item e = some d ∧ 0 ≤ d.scale := by
  have hinput : ∀ {t}, (AttributeValue.n t).AllNumbers IsNormal →
      ∃ d, bd.parse t = some d ∧ 0 ≤ d.scale :=
    fun ht => hbd.parse_isNormal (AttributeValue.allNumbers_n.mp ht)
  fun_induction evaluateSetValue bd item maps e generalizing t with
  | case1 name =>
    obtain ⟨d, hd, hscale⟩ := hinput (resolveValueFor_allNumbers hvalues h)
    exact ⟨d, hd, by simp [exactValue, resolveValueFor_get h, numberOf, hd], hscale⟩
  | case2 elements =>
    obtain ⟨found, hfound, hr⟩ := unbind h
    split at hr
    · cases hr
      obtain ⟨d, hd, hscale⟩ := hinput (resolvePath_allNumbers hitem hfound)
      exact ⟨d, hd, by simp [exactValue, hfound, numberOf, hd], hscale⟩
    · cases hr
  | case3 left op right ihl ihr =>
    simp only [bind_eq_ok] at h
    obtain ⟨lv, hl, rv, hr, h⟩ := h
    obtain ⟨l, r, a, b, rfl, rfl, ha, hb, hv, -⟩ := evaluateArithmetic_ok h
    cases hv
    obtain ⟨a', ha', hexa, hascale⟩ := ihl hl
    obtain ⟨b', hb', hexb, -⟩ := ihr hr
    cases ha.symm.trans ha'
    cases hb.symm.trans hb'
    have hscale : 0 ≤ (exact op a b).scale := by
      rw [exact_scale]
      omega
    rw [hbd.compute_eq]
    exact ⟨_, hbd.parse_toString _ hscale, by simp [exactValue, hexa, hexb], hscale⟩
  | case4 path value ih =>
    obtain ⟨existing, hexisting, hr⟩ := unbind h
    split at hr
    · cases hr
      obtain ⟨d, hd, hscale⟩ := hinput (existingValue_allNumbers hitem hexisting)
      exact ⟨d, hd, by simp [exactValue, hexisting, numberOf, hd], hscale⟩
    · obtain ⟨d, hd, hex, hscale⟩ := ih hr
      exact ⟨d, hd, by simp [exactValue, hexisting, hex], hscale⟩
  | case6 left right ihl ihr =>
    simp only [bind_eq_ok] at h
    obtain ⟨lv, -, rv, -, h⟩ := h
    obtain ⟨xs, ys, -, -, hv⟩ := appendLists_ok h
    cases hv
  | case5 | case7 | case8 | case9 => cases h

theorem evaluateSetValue_arithmetic {left right op}
    (h : evaluateSetValue bd item maps (.arithmetic left op right) = .ok v) :
    ∃ d, v = .n (bd.toString d) ∧ exactValue bd maps item (.arithmetic left op right) = some d ∧
      (IsNormal (bd.toString d) ↔ PrintsNormal bd d) := by
  obtain ⟨lv, hl, h⟩ := unbind h
  obtain ⟨rv, hr, h⟩ := unbind h
  obtain ⟨l, r, a, b, rfl, rfl, ha, hb, rfl, hvalid⟩ := evaluateArithmetic_ok h
  obtain ⟨a', ha', hexa, hascale⟩ := evaluateSetValue_exact hbd hitem hvalues hl
  obtain ⟨b', hb', hexb, -⟩ := evaluateSetValue_exact hbd hitem hvalues hr
  cases ha.symm.trans ha'
  cases hb.symm.trans hb'
  rw [hbd.compute_eq] at hvalid ⊢
  refine ⟨_, rfl, by simp [exactValue, hexa, hexb], hbd.toString_isNormal_iff ?_ hvalid⟩
  rw [exact_scale]
  omega

theorem ExactNormal.computedNumbers (he : ExactNormal bd maps item e) :
    ComputedNumbers bd maps item IsNormal e := by
  fun_induction ComputedNumbers bd maps item IsNormal e with
  | case1 left op right =>
    intro t ht
    obtain ⟨d, hv, hex, hiff⟩ := evaluateSetValue_arithmetic hbd hitem hvalues ht
    cases hv
    exact hiff.mpr (he d hex)
  | case2 path value ih =>
    exact fun hnone => ih (he hnone)
  | case3 => trivial

theorem ComputedNumbers.exactNormal (h : evaluateSetValue bd item maps e = .ok v)
    (he : ComputedNumbers bd maps item IsNormal e) : ExactNormal bd maps item e := by
  fun_induction ExactNormal bd maps item e generalizing v with
  | case1 left op right =>
    intro d hd
    obtain ⟨d', rfl, hex, hiff⟩ := evaluateSetValue_arithmetic hbd hitem hvalues h
    cases hex.symm.trans hd
    exact hiff.mp (he _ h)
  | case2 path value ih =>
    intro hnone
    simp only [evaluateSetValue, hnone] at h
    exact ih h (he hnone)
  | case3 => trivial

theorem addedValue_exact {existing value added new} (hexisting : IsNormal existing)
    (heval : evaluateSetValue bd item maps value = .ok added)
    (h : addedValue bd (some (.n existing)) added = .ok new) :
    ∃ a b, bd.parse existing = some a ∧ exactValue bd maps item value = some b ∧
      new = .n (bd.toString (a.exactAdd b)) ∧
      (IsNormal (bd.toString (a.exactAdd b)) ↔ PrintsNormal bd (a.exactAdd b)) := by
  obtain ⟨text, rfl⟩ : ∃ text, added = .n text := by
    cases added <;> first | exact ⟨_, rfl⟩ | cases h
  obtain ⟨a, ha, h⟩ := unbind h
  obtain ⟨b, hb, h⟩ := unbind h
  obtain ⟨rfl, hvalid⟩ := storeNumber_ok h
  obtain ⟨a', ha', hascale⟩ := hbd.parse_isNormal hexisting
  obtain ⟨b', hb', hexb, -⟩ := evaluateSetValue_exact hbd hitem hvalues heval
  cases (parseNumber_ok ha).symm.trans ha'
  cases (parseNumber_ok hb).symm.trans hb'
  rw [hbd.add_eq] at hvalid ⊢
  refine ⟨a, b, ha', hexb, rfl, hbd.toString_isNormal_iff ?_ hvalid⟩
  exact le_max_of_le_left hascale

variable {action : UpdateAction}

theorem AddNormal.addComputes (h : AddNormal bd maps item action) :
    AddComputes bd maps IsNormal item action := by
  cases action with
  | add path value =>
    cases hfound : resolvePath path item maps with
    | error e => simp [AddComputes, hfound]
    | ok found =>
      cases found with
      | none =>
        simp only [AddNormal, AddComputes, hfound] at h ⊢
        exact ExactNormal.computedNumbers hbd hitem hvalues h
      | some v =>
        cases v with
        | n existing =>
          simp only [AddNormal, AddComputes, hfound] at h ⊢
          intro added t heval hadd
          obtain ⟨a, b, ha, hb, hnew, hiff⟩ := addedValue_exact hbd hitem hvalues
            (AttributeValue.allNumbers_n.mp (resolvePath_allNumbers hitem hfound))
            heval hadd
          cases hnew
          exact hiff.mpr (h a b ha hb)
        | _ => simp [AddComputes, hfound]
  | _ => simp [AddComputes]

theorem NormalArithmetic.statementComputes {actions} (h : NormalArithmetic bd maps actions item) :
    StatementComputes bd maps IsNormal actions item where
  sets := fun path value hmem =>
    ExactNormal.computedNumbers hbd hitem hvalues (h.sets path value hmem)
  adds := fun afterSet afterRemove hset hremove => by
    have hsets := fun path value hmem =>
      ExactNormal.computedNumbers hbd hitem hvalues (h.sets path value hmem)
    refine RunSatisfies.imp (Item.AllNumbers IsNormal) ?_ ?_
      (afterRemove_allNumbers hitem (fun path value v hmem hv =>
        (evaluateSetValue_allNumbers_iff hitem hvalues hv).mpr (hsets path value hmem)) hset hremove)
      (h.adds afterSet afterRemove hset hremove)
    · intro s action s' _ hs haction hstep
      exact addStep_allNumbers hs ((haction.addComputes hbd hs hvalues).stores hvalues hs) hstep
    · intro s action _ hs haction
      exact haction.addComputes hbd hs hvalues

theorem addNormal_of_applyAdd {path value item'}
    (heval : evaluateSetValue bd item maps value = .ok v)
    (h : applyAdd bd item path v maps = .ok item') (hnormal : item'.AllNumbers IsNormal) :
    AddNormal bd maps item (.add path value) := by
  obtain ⟨existing, new, hfound, hadded, hnew⟩ := applyAdd_stores h hnormal
  cases existing with
  | none =>
    have hv : v.AllNumbers IsNormal := by
      cases v <;> cases hadded <;> exact hnew
    simp only [AddNormal, hfound]
    exact ((evaluateSetValue_allNumbers_iff hitem hvalues heval).mp hv).exactNormal
      hbd hitem hvalues heval
  | some stored =>
    cases stored with
    | n text =>
      simp only [AddNormal, hfound]
      intro a b ha hb
      obtain ⟨a', b', ha', hb', rfl, hiff⟩ := addedValue_exact hbd hitem hvalues
        (AttributeValue.allNumbers_n.mp (resolvePath_allNumbers hitem hfound)) heval hadded
      cases ha.symm.trans ha'
      cases hb.symm.trans hb'
      exact hiff.mp (AttributeValue.allNumbers_n.mp hnew)
    | _ => simp [AddNormal, hfound]

theorem normalArithmetic_of_singleton {item'} (h : applyUpdate bd maps [action] item = .ok item')
    (hnormal : item'.AllNumbers IsNormal) :
    NormalArithmetic bd maps [action] item := by
  cases action with
  | set path value =>
    rw [applyUpdate_set] at h
    obtain ⟨v, hv, hset⟩ := unbind h
    have hcomputed := (evaluateSetValue_allNumbers_iff hitem hvalues hv).mp
      (setPath_stores hset hnormal)
    refine ⟨fun path' value' hmem => ?_, fun _ _ _ _ => ⟨trivial, fun _ _ => trivial⟩⟩
    cases List.mem_singleton.mp hmem
    exact hcomputed.exactNormal hbd hitem hvalues hv
  | remove path | delete path value =>
    exact ⟨fun _ _ hmem => by simp at hmem, fun _ _ _ _ => ⟨trivial, fun _ _ => trivial⟩⟩
  | add path value =>
    rw [applyUpdate_add] at h
    obtain ⟨v, hv, hadd⟩ := unbind h
    refine ⟨fun _ _ hmem => by simp at hmem, fun _ _ hset hremove => ?_⟩
    cases hset
    cases hremove
    exact ⟨addNormal_of_applyAdd hbd hitem hvalues hv hadd hnormal, fun _ _ => trivial⟩

end

/-- Numbers through an update statement, for any crate with the documented behaviour: where the
arithmetic of a statement on normal numbers prints normal results, every number of the updated
item is normal, and for a statement of one action this is necessary too. -/
theorem applyUpdate_allNumbers_normal (bd : BigDecimalCrate) (hbd : bd.PrintsDigits)
    (maps : ExpressionMaps) (actions : List UpdateAction) (item : Item)
    (hitem : item.AllNumbers IsNormal) (hvalues : maps.AllNumbers IsNormal) :
    (NormalArithmetic bd maps actions item →
      ∀ item', applyUpdate bd maps actions item = .ok item' → item'.AllNumbers IsNormal) ∧
    ∀ action item', actions = [action] → applyUpdate bd maps actions item = .ok item' →
      (item'.AllNumbers IsNormal ↔ NormalArithmetic bd maps actions item) := by
  have hsufficient : NormalArithmetic bd maps actions item →
      ∀ item', applyUpdate bd maps actions item = .ok item' → item'.AllNumbers IsNormal :=
    fun harith _ h => ((harith.statementComputes hbd hitem hvalues).stores hitem hvalues).allNumbers
      hitem h
  refine ⟨hsufficient, fun action item' hactions h => ⟨fun hnormal => ?_, fun harith => ?_⟩⟩
  · subst hactions
    exact normalArithmetic_of_singleton hbd hitem hvalues h hnormal
  · exact hsufficient harith item' h

def sumStatement : List UpdateAction :=
  [.set [.attr "total"] (.arithmetic (.path [.attr "price"]) .add (.placeholder "v"))]

def sumItem : Item := [("pk", .s "k"), ("price", .n "1.5")]

theorem applyUpdate_sum_normal :
    NormalArithmetic .reference ⟨[], [("v", .n "1.25")]⟩ sumStatement sumItem ∧
      Item.AllNumbers IsNormal [("pk", .s "k"), ("price", .n "1.5"), ("total", .n "2.75")] := by
  have hbd := BigDecimalCrate.reference_printsDigits
  have hupdate : applyUpdate .reference ⟨[], [("v", .n "1.25")]⟩ sumStatement sumItem =
      .ok [("pk", .s "k"), ("price", .n "1.5"), ("total", .n "2.75")] := by decide
  have hspec := applyUpdate_allNumbers_normal .reference hbd ⟨[], [("v", .n "1.25")]⟩ sumStatement
    sumItem (by decide) (by decide)
  have harith := (hspec.2 _ _ rfl hupdate).mp (by decide)
  exact ⟨harith, hspec.1 harith _ hupdate⟩

/-- `1.5 + 1.5` is stored as `3.0`. -/
theorem applyUpdate_sum_trailing_zero : Item.AllNumbers IsNormal sumItem ∧
      ExpressionMaps.AllNumbers IsNormal ⟨[], [("v", .n "1.5")]⟩ ∧
      applyUpdate .reference ⟨[], [("v", .n "1.5")]⟩ sumStatement sumItem =
        .ok [("pk", .s "k"), ("price", .n "1.5"), ("total", .n "3.0")] ∧
      ¬ Item.AllNumbers IsNormal [("pk", .s "k"), ("price", .n "1.5"), ("total", .n "3.0")] := by
  decide

end ExtendDb
