import ExtendDb.Expression.ConditionLaws

/-!
# Placeholders an expression uses

The references `validate_unused_attributes` collects, and that evaluation reads no others.
-/

namespace ExtendDb

open Fallible List ExpressionMaps

structure PlaceholderRefs where
  names : List String
  values : List String

instance : Append PlaceholderRefs := ⟨fun a b => ⟨a.names ++ b.names, a.values ++ b.values⟩⟩

def collectPathRefs (elements : List PathElement) : PlaceholderRefs where
  names := elements.filterMap fun
    | .attr name => stripPrefix '#' name
    | .index _ => none
  values := []

mutual

def collectExprRefs : Expr → PlaceholderRefs
  | .path elements => collectPathRefs elements
  | .placeholder name => ⟨[], [name]⟩
  | .compare left _ right | .arithmetic left _ right | .and left right | .or left right =>
    collectExprRefs left ++ collectExprRefs right
  | .not inner => collectExprRefs inner
  | .function _ args => collectListRefs args
  | .between operand low high =>
    collectExprRefs operand ++ (collectExprRefs low ++ collectExprRefs high)
  | .in operand list => collectExprRefs operand ++ collectListRefs list

def collectListRefs : List Expr → PlaceholderRefs
  | [] => ⟨[], []⟩
  | expr :: rest => collectExprRefs expr ++ collectListRefs rest

end

def collectActionRefs : UpdateAction → PlaceholderRefs
  | .set path value | .add path value | .delete path value =>
    collectPathRefs path ++ collectExprRefs value
  | .remove path => collectPathRefs path

/-- The placeholder of a key that may be written with its sign or without. -/
def placeholderOf (sign : Char) (key : String) : String := (stripPrefix sign key).getD key

def checkAllUsed (field : String) (sign : Char) (used keys : List String) : Result Unit :=
  keys.forM fun key =>
    if placeholderOf sign key ∈ used then .ok ()
    else .error (.validationException
      ("Value provided in ExpressionAttribute" ++ field ++ " unused in expressions: keys: \x7b" ++
        (if (stripPrefix sign key).isSome then key else String.singleton sign ++ key) ++ "\x7d"))

def usedRefs (exprs : List Expr) (actions : List UpdateAction) (keyCondition : PlaceholderRefs) :
    PlaceholderRefs :=
  (actions.map collectActionRefs).foldl (· ++ ·)
    ((exprs.map collectExprRefs).foldl (· ++ ·) keyCondition)

def validateUnusedAttributes (maps : ExpressionMaps) (exprs : List Expr)
    (actions : List UpdateAction) (keyCondition : PlaceholderRefs) : Result Unit := do
  let used := usedRefs exprs actions keyCondition
  checkAllUsed "Names" '#' used.names (maps.names.map (·.1))
  checkAllUsed "Values" ':' used.values (maps.values.map (·.1))

/-! ## Maps that agree on the references -/

structure PlaceholderRefs.AgreeOn (refs : PlaceholderRefs) (maps maps' : ExpressionMaps) : Prop where
  names : ∀ name ∈ refs.names, OrdMap.get? maps.names name = OrdMap.get? maps'.names name
  values : ∀ name ∈ refs.values, OrdMap.get? maps.values name = OrdMap.get? maps'.values name

variable {maps maps' : ExpressionMaps}

theorem PlaceholderRefs.agreeOn_append {a b : PlaceholderRefs} :
    (a ++ b).AgreeOn maps maps' ↔ a.AgreeOn maps maps' ∧ b.AgreeOn maps maps' := by
  constructor
  · exact fun h => ⟨⟨fun n hn => h.names n (mem_append_left _ hn),
      fun n hn => h.values n (mem_append_left _ hn)⟩,
      ⟨fun n hn => h.names n (mem_append_right _ hn),
      fun n hn => h.values n (mem_append_right _ hn)⟩⟩
  · exact fun ⟨ha, hb⟩ => ⟨fun n hn => (mem_append.mp hn).elim (ha.names n) (hb.names n),
      fun n hn => (mem_append.mp hn).elim (ha.values n) (hb.values n)⟩

theorem collectPathRefs_cons (element rest) :
    collectPathRefs (element :: rest) = collectPathRefs [element] ++ collectPathRefs rest := by
  simp only [collectPathRefs, filterMap_cons, filterMap_nil]
  split <;> rfl

theorem resolveNameRef_congr {name} (h : (collectPathRefs [.attr name]).AgreeOn maps maps') :
    resolveNameRef name maps = resolveNameRef name maps' := by
  unfold resolveNameRef resolveName
  split
  · rename_i ref href
    rw [h.names ref (by simp [collectPathRefs, href])]
  · rfl

open PlaceholderRefs

theorem walkPath_congr {path v} (h : (collectPathRefs path).AgreeOn maps maps') :
    walkPath maps path v = walkPath maps' path v := by
  induction path generalizing v with
  | nil => rfl
  | cons element rest ih =>
    rw [collectPathRefs_cons, agreeOn_append] at h
    cases element with
    | attr name =>
      rw [walkPath, walkPath, resolveNameRef_congr h.1]
      simp only [ih h.2]
    | index i => cases v <;> simp only [walkPath, ih h.2]

theorem resolvePath_congr {path : List PathElement} (item)
    (h : (collectPathRefs path).AgreeOn maps maps') :
    resolvePath path item maps = resolvePath path item maps' := by
  cases path with
  | nil => rfl
  | cons element rest =>
    rw [collectPathRefs_cons, agreeOn_append] at h
    have hname : resolveElementName element maps = resolveElementName element maps' := by
      cases element with
      | attr name => exact resolveNameRef_congr h.1
      | index i => rfl
    simp only [resolvePath, hname, walkPath_congr h.2]

theorem pathText_congr {path} (h : (collectPathRefs path).AgreeOn maps maps') :
    pathText maps path = pathText maps' path := by
  rw [pathText, pathText]
  congr 3
  refine map_congr_left fun element helement => ?_
  cases element with
  | index i => rfl
  | attr name =>
    cases href : stripPrefix '#' name with
    | none => simp [href]
    | some ref =>
      have hmem : ref ∈ (collectPathRefs path).names := mem_filterMap.mpr ⟨_, helement, href⟩
      simp [href, h.names ref hmem]

/-! ## Evaluation -/

theorem resolveToValue_congr (item e) (h : (collectExprRefs e).AgreeOn maps maps') :
    resolveToValue item maps e = resolveToValue item maps' e := by
  cases e with
  | path elements => exact resolvePath_congr item h
  | placeholder name =>
    have hget : OrdMap.get? maps.values name = OrdMap.get? maps'.values name :=
      h.values name (.head _)
    simp only [resolveToValue, resolveValue, hget]
  | function name args =>
    rcases args with - | ⟨arg, - | ⟨_, _⟩⟩
    case cons.nil =>
      rw [collectExprRefs, collectListRefs, agreeOn_append] at h
      simp only [resolveToValue, evaluateSize, resolveToValue_congr item arg h.1]
    all_goals simp only [resolveToValue, evaluateSize]
  | _ => simp only [resolveToValue]

theorem agreeOn_of_mem {args arg} (h : (collectListRefs args).AgreeOn maps maps')
    (harg : arg ∈ args) :
    (collectExprRefs arg).AgreeOn maps maps' := by
  induction args with
  | nil => cases harg
  | cons a rest ih =>
    rw [collectListRefs, agreeOn_append] at h
    rcases mem_cons.mp harg with rfl | harg
    · exact h.1
    · exact ih h.2 harg

theorem evaluateFunction_congr (item name) {args} (h : (collectListRefs args).AgreeOn maps maps') :
    evaluateFunction item maps name args = evaluateFunction item maps' name args := by
  have hvalue : ∀ arg ∈ args, resolveToValue item maps arg = resolveToValue item maps' arg :=
    fun arg harg => resolveToValue_congr item arg (agreeOn_of_mem h harg)
  have htext : ∀ arg ∈ args, operandText maps arg = operandText maps' arg := by
    intro arg harg
    cases arg with
    | path p => exact pathText_congr (agreeOn_of_mem h harg)
    | _ => rfl
  unfold evaluateFunction
  split
  all_goals first
    | rfl
    | simp only [hvalue _ (.head _), hvalue _ (.tail _ (.head _)), htext _ (.head _)]
    | simp only [hvalue _ (.head _)]

variable (bd : BigDecimalCrate)

theorem evaluateIn_congr (item v) {list : List Expr} (h : (collectListRefs list).AgreeOn maps maps') :
    evaluateIn bd (fun _ => none) item maps v none list =
      evaluateIn bd (fun _ => none) item maps' v none list := by
  induction list with
  | nil => rfl
  | cons candidate rest ih =>
    rw [collectListRefs, agreeOn_append] at h
    simp only [evaluateIn, resolveToValue_congr item candidate h.1, ih h.2]

theorem evaluateWith_congr (item e) (h : (collectExprRefs e).AgreeOn maps maps') :
    evaluateWith bd (fun _ => none) item maps e = evaluateWith bd (fun _ => none) item maps' e := by
  cases e with
  | compare left op right =>
    rw [collectExprRefs, agreeOn_append] at h
    simp only [evaluateWith, resolveToValue_congr item _ h.1, resolveToValue_congr item _ h.2]
  | and left right | or left right =>
    rw [collectExprRefs, agreeOn_append] at h
    simp only [evaluateWith, evaluateWith_congr item left h.1, evaluateWith_congr item right h.2]
  | not inner => simp only [evaluateWith, evaluateWith_congr item inner h]
  | function name args =>
    simp only [evaluateWith]
    exact evaluateFunction_congr item name h
  | between operand low high =>
    rw [collectExprRefs, agreeOn_append, agreeOn_append] at h
    simp only [evaluateWith, resolveToValue_congr item _ h.1,
      resolveToValue_congr item _ h.2.1, resolveToValue_congr item _ h.2.2]
  | «in» operand list =>
    rw [collectExprRefs, agreeOn_append] at h
    simp only [evaluateWith, resolveToValue_congr item _ h.1, placeholderNumeric_empty,
      evaluateIn_congr bd item _ h.2]
  | _ => rfl

/-- A condition reads only the placeholders collected from it, and the check passes exactly when
every placeholder of the maps was collected. -/
theorem evaluateCondition_reads_collected (e : Expr) (maps maps' : ExpressionMaps) :
    ((collectExprRefs e).AgreeOn maps maps' →
      ∀ item, evaluateCondition bd item maps e = evaluateCondition bd item maps' e) ∧
    ∀ exprs actions keyCondition,
      validateUnusedAttributes maps exprs actions keyCondition = .ok () ↔
        (∀ key ∈ maps.names.map (·.1),
          placeholderOf '#' key ∈ (usedRefs exprs actions keyCondition).names) ∧
        ∀ key ∈ maps.values.map (·.1),
          placeholderOf ':' key ∈ (usedRefs exprs actions keyCondition).values := by
  refine ⟨fun h item => ?_, fun exprs actions keyCondition => ?_⟩
  · rw [evaluateCondition, evaluateCondition, evaluateWith_eq,
      evaluateWith_eq, evaluateWith_congr bd item e h]
  have hused (field : String) (sign : Char) (used keys : List String) :
      checkAllUsed field sign used keys = .ok () ↔ ∀ key ∈ keys, placeholderOf sign key ∈ used := by
    rw [checkAllUsed, forM_eq_ok]
    refine forall₂_congr fun key _ => ?_
    by_cases h : placeholderOf sign key ∈ used <;> simp [h]
  rw [validateUnusedAttributes]
  exact check_then_eq_ok.trans (and_congr (hused ..) (hused ..))

end ExtendDb
