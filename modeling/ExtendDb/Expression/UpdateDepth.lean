import ExtendDb.Expression.UpdateNumbers
import ExtendDb.Validation.Nested

/-!
# Nesting depth under update

The depth of a stored value is a leveled invariant whose level counts down: a container at level `k
+ 1` has members at level `k`.
-/

namespace ExtendDb

open Fallible AttributeValue

/-- The level below a container. -/
def depthChild : Nat → Option Nat
  | 0 => none
  | k + 1 => some k

theorem depth_leveled : Leveled depthChild (fun k v => v.depth ≤ k) where
  list i vs := by
    cases i with
    | zero => simp [depth, depthChild]
    | succ k => simp [depth, depthChild, listDepth_le]
  map i es := by
    cases i with
    | zero => simp [depth, depthChild]
    | succ k => simp [depth, depthChild, entriesDepth_le]

theorem below_depthChild {k n} (h : n ≤ k) : below depthChild k n = some (k - n) := by
  induction n generalizing k with
  | zero => rfl
  | succ n ih =>
    cases k with
    | zero => omega
    | succ k =>
      rw [below_succ (show depthChild (k + 1) = some k from rfl), ih (by omega)]
      congr 1
      omega

/-! ## Values of expressions -/

section

variable (item : Item) (maps : ExpressionMaps)

def pathDepth (elements : List PathElement) : Nat :=
  match resolvePath elements item maps with
  | .ok (some v) => v.depth
  | _ => 0

def operandDepth : Expr → Nat
  | .placeholder name => ((OrdMap.get? maps.values name).map depth).getD 0
  | .path elements => pathDepth item maps elements
  | .function "if_not_exists" [.path elements, value] =>
    match resolvePath elements item maps with
    | .ok (some v) => v.depth
    | _ => operandDepth value
  | .function "if_not_exists" [_, value] => operandDepth value
  | .function "list_append" [left, right] => max (operandDepth left) (operandDepth right)
  | _ => 0
termination_by structural e => e

end

variable {bd : BigDecimalCrate} {item : Item} {maps : ExpressionMaps}

theorem listDepth_append (xs ys) : listDepth (xs ++ ys) = max (listDepth xs) (listDepth ys) := by
  induction xs with
  | nil => simp [listDepth]
  | cons x xs ih => rw [List.cons_append, listDepth, listDepth, ih, max_assoc]

theorem evaluateSetValue_depth {e v} (h : evaluateSetValue bd item maps e = .ok v) :
    v.depth = operandDepth item maps e := by
  fun_induction evaluateSetValue bd item maps e generalizing v with
  | case1 name =>
    unfold ExpressionMaps.resolveValueFor at h
    split at h
    · rename_i hget
      cases h
      simp [operandDepth, hget]
    · cases h
  | case2 elements =>
    obtain ⟨found, hfound, hr⟩ := unbind h
    split at hr
    · cases hr
      simp [operandDepth, pathDepth, hfound]
    · cases hr
  | case3 left op right =>
    simp only [bind_eq_ok] at h
    obtain ⟨lv, -, rv, -, h⟩ := h
    obtain ⟨_, _, _, _, -, -, -, -, rfl, -⟩ := evaluateArithmetic_ok h
    simp [operandDepth, depth]
  | case4 path value ih =>
    obtain ⟨existing, hexisting, hr⟩ := unbind h
    cases path with
    | path elements =>
      have hres : resolvePath elements item maps = .ok existing := hexisting
      cases existing with
      | some w =>
        cases hr
        simp [operandDepth, hres]
      | none =>
        rw [ih hr]
        simp [operandDepth, hres]
    | _ =>
      cases hexisting
      rw [ih hr, operandDepth]
      simp
  | case6 left right ihl ihr =>
    simp only [bind_eq_ok] at h
    obtain ⟨lv, hl, rv, hr, h⟩ := h
    obtain ⟨xs, ys, rfl, rfl, rfl⟩ := appendLists_ok h
    rw [operandDepth, ← ihl hl, ← ihr hr]
    simp only [depth, listDepth_append]
    omega
  | case5 | case7 | case8 | case9 => cases h

theorem addedValue_depth {existing value new} (h : addedValue bd existing value = .ok new) :
    new.depth = 0 := by
  unfold addedValue at h
  split at h
  case h_5 =>
    simp only [bind_eq_ok] at h
    obtain ⟨a, -, b, -, h⟩ := h
    obtain ⟨rfl, -⟩ := storeNumber_ok h
    rfl
  all_goals
    cases h
    try rfl

theorem remainingValue_depth {existing value new}
    (h : remainingValue existing value = .ok (some new)) : new.depth = 0 := by
  unfold remainingValue at h
  split at h
  case h_4 => cases h
  all_goals
    simp only [Except.ok.injEq, Option.ite_none_left_eq_some, Option.some.injEq] at h
    obtain ⟨-, rfl⟩ := h
    rfl

/-! ## Statements -/

/-- The action hangs nothing below the limit: a SET path with its operand, an ADD path with the
number or set at its end. -/
def UpdateAction.KeepsDepth (base : Item) (maps : ExpressionMaps) : UpdateAction → Prop
  | .set path value => path.length + operandDepth base maps value ≤ maxItemNestingDepth
  | .add path _ => path.length ≤ maxItemNestingDepth
  | .remove _ | .delete _ _ => True

instance (base : Item) (maps : ExpressionMaps) (action : UpdateAction) :
    Decidable (action.KeepsDepth base maps) := by
  cases action <;> unfold UpdateAction.KeepsDepth <;> infer_instance

/-- Every attribute is within the limit. -/
def Item.WithinDepth (item : Item) : Prop := validateItemNestingDepth item = .ok ()

theorem withinDepth_iff {item} : item.WithinDepth ↔ Item.Leveled (fun k v => v.depth ≤ k) 31 item :=
  validateItemNestingDepth_eq_ok

variable {action : UpdateAction}

theorem setStep_withinDepth {snapshot item item'} (hkeeps : action.KeepsDepth snapshot maps)
    (hitem : item.WithinDepth) (h : setStep bd maps snapshot item action = .ok item') :
    item'.WithinDepth := by
  unfold setStep at h
  split at h
  · rename_i path value
    obtain ⟨v, hv, h⟩ := unbind h
    have hmax : maxItemNestingDepth = 32 := rfl
    have hkeeps : path.length + operandDepth snapshot maps value ≤ maxItemNestingDepth := hkeeps
    rw [← evaluateSetValue_depth hv] at hkeeps
    have hpath : path ≠ [] := by
      rintro rfl
      cases h
    have hlen : 0 < path.length := List.length_pos_iff.mpr hpath
    rw [withinDepth_iff] at hitem ⊢
    exact depth_leveled.setPath hitem (below_depthChild (by omega)) (show v.depth ≤ _ by omega) h
  · cases h
    exact hitem

theorem removeStep_withinDepth {item item'} (hitem : item.WithinDepth)
    (h : removeStep maps item action = .ok item') :
    item'.WithinDepth := by
  unfold removeStep at h
  split at h
  · rw [withinDepth_iff] at hitem ⊢
    exact depth_leveled.removePath hitem h
  · cases h
    exact hitem

theorem addStep_withinDepth {base item item'} (hkeeps : action.KeepsDepth base maps)
    (hitem : item.WithinDepth) (h : addStep bd maps item action = .ok item') :
    item'.WithinDepth := by
  unfold addStep at h
  split at h
  · rename_i path value
    obtain ⟨v, -, h⟩ := unbind h
    have hmax : maxItemNestingDepth = 32 := rfl
    have hkeeps : path.length ≤ maxItemNestingDepth := hkeeps
    rw [withinDepth_iff] at hitem ⊢
    refine depth_leveled.applyAdd (fun existing new _ _ hnew => ?_) hitem
      (below_depthChild (by omega)) h
    rw [addedValue_depth hnew]
    exact Nat.zero_le _
  · cases h
    exact hitem

theorem deleteStep_withinDepth {item item'} (hitem : item.WithinDepth)
    (h : deleteStep bd maps item action = .ok item') :
    item'.WithinDepth := by
  unfold deleteStep at h
  split at h
  · obtain ⟨v, -, h⟩ := unbind h
    rw [withinDepth_iff] at hitem ⊢
    refine depth_leveled.applyDelete (fun j existing new _ hnew => ?_) hitem h
    rw [remainingValue_depth hnew]
    exact Nat.zero_le _
  · cases h
    exact hitem

theorem applyUpdate_withinDepth {actions item item'} (hitem : item.WithinDepth)
    (hkeeps : ∀ a ∈ actions, a.KeepsDepth item maps)
    (h : applyUpdate bd maps actions item = .ok item') : item'.WithinDepth := by
  obtain ⟨afterSet, hset, h⟩ := unbind h
  obtain ⟨afterRemove, hremove, h⟩ := unbind h
  obtain ⟨afterAdd, hadd, hdelete⟩ := unbind h
  have h1 := foldlM_invariant Item.WithinDepth
    (fun _ a _ ha => setStep_withinDepth (hkeeps a ha)) hitem hset
  have h2 := foldlM_invariant Item.WithinDepth (fun _ _ _ _ => removeStep_withinDepth) h1 hremove
  have h3 := foldlM_invariant Item.WithinDepth
    (fun _ a _ ha => addStep_withinDepth (hkeeps a ha)) h2 hadd
  exact foldlM_invariant Item.WithinDepth (fun _ _ _ _ => deleteStep_withinDepth) h3 hdelete

end ExtendDb
