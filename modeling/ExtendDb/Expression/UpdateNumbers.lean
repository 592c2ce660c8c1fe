import ExtendDb.Expression.UpdateInvariants

/-!
# Numbers through update statements

Where the numbers of an updated item come from: the item, the placeholder values, and the texts
printed by SET arithmetic and by ADD onto an existing number.
-/

namespace ExtendDb

open Fallible AttributeValue OrdMap Option

/-- Every number inside a placeholder value satisfies `P`. -/
def ExpressionMaps.AllNumbers (P : String → Prop) (maps : ExpressionMaps) : Prop :=
  ∀ e ∈ maps.values, e.2.AllNumbers P

instance (P : String → Prop) [DecidablePred P] (maps : ExpressionMaps) :
    Decidable (maps.AllNumbers P) :=
  inferInstanceAs (Decidable (∀ e ∈ maps.values, e.2.AllNumbers P))

theorem allNumbers_leveled (P : String → Prop) :
    Leveled (fun _ : Unit => some ()) (fun _ v => v.AllNumbers P) where
  list := by simp
  map := by simp

@[simp]
theorem below_unit (n) : below (fun _ : Unit => some ()) () n = some () := by
  induction n with
  | zero => rfl
  | succ n ih => rw [below_succ rfl, ih]

variable {P : String → Prop} {item : Item} {path : List PathElement}

section

variable {bd : BigDecimalCrate} {maps : ExpressionMaps} {v : AttributeValue}

theorem walkPath_allNumbers {current} (hcurrent : current.AllNumbers P)
    (h : walkPath maps path current = .ok (some v)) :
    v.AllNumbers P := by
  fun_induction walkPath maps path current with
  | case1 current =>
    cases h
    exact hcurrent
  | case2 name rest current ih =>
    obtain ⟨resolved, -, hr⟩ := unbind h
    split at hr
    · rename_i map
      split at hr
      · rename_i next hget
        exact ih next (allNumbers_m.mp hcurrent _ (mem_of_get? hget)) hr
      · cases hr
    · cases hr
  | case3 idx rest list entry hget ih =>
    exact ih (allNumbers_l.mp hcurrent _ (List.mem_of_getElem? hget)) h
  | case4 | case5 => cases h

theorem resolvePath_allNumbers
    (hitem : item.AllNumbers P) (h : resolvePath path item maps = .ok (some v)) :
    v.AllNumbers P := by
  unfold resolvePath at h
  split at h
  · cases h
  obtain ⟨name, -, hr⟩ := unbind h
  split at hr
  · rename_i current hget
    exact walkPath_allNumbers (hitem _ (mem_of_get? hget)) hr
  · cases hr

theorem existingValue_allNumbers {arg} (hitem : item.AllNumbers P)
    (h : existingValue arg item maps = .ok (some v)) : v.AllNumbers P := by
  unfold existingValue at h
  split at h
  · exact resolvePath_allNumbers hitem h
  · cases h

theorem resolveValueFor_allNumbers {name exprType} (hvalues : maps.AllNumbers P)
    (h : maps.resolveValueFor name exprType = .ok v) :
    v.AllNumbers P := by
  unfold ExpressionMaps.resolveValueFor at h
  split at h
  · rename_i hget
    cases h
    exact hvalues _ (mem_of_get? hget)
  · cases h

theorem parseNumber_ok {text d} (h : parseNumber bd text = .ok d) : bd.parse text = some d := by
  unfold parseNumber at h
  split at h
  · rename_i hd
    cases h
    exact hd
  · cases h

theorem storeNumber_ok {d} (h : storeNumber bd d = .ok v) :
    v = .n (bd.toString d) ∧ IsValidNumber (bd.toString d) := by
  unfold storeNumber at h
  split at h
  · rename_i t ht
    cases h
    exact ⟨rfl, t, ht⟩
  · cases h

theorem evaluateArithmetic_ok {left right op} (h : evaluateArithmetic bd left right op = .ok v) :
    ∃ l r a b, left = .n l ∧ right = .n r ∧ bd.parse l = some a ∧ bd.parse r = some b ∧
      v = .n (bd.toString (bd.compute op a b)) ∧ IsValidNumber (bd.toString (bd.compute op a b)) := by
  unfold evaluateArithmetic at h
  split at h
  · rename_i l r
    simp only [bind_eq_ok] at h
    obtain ⟨a, ha, b, hb, h⟩ := h
    obtain ⟨hv, hvalid⟩ := storeNumber_ok h
    exact ⟨l, r, a, b, rfl, rfl, parseNumber_ok ha, parseNumber_ok hb, hv, hvalid⟩
  · cases h

theorem appendLists_ok {left right} (h : appendLists left right = .ok v) :
    ∃ xs ys, left = .l xs ∧ right = .l ys ∧ v = .l (xs ++ ys) := by
  unfold appendLists at h
  split at h
  · rename_i xs ys
    cases h
    exact ⟨xs, ys, rfl, rfl, rfl⟩
  · cases h

/-- Arithmetic only ever makes a number of its own: any other value consists of what is in the
item and the placeholders. -/
theorem evaluateSetValue_allNumbers_or {e} (hitem : item.AllNumbers P) (hvalues : maps.AllNumbers P)
    (h : evaluateSetValue bd item maps e = .ok v) :
    v.AllNumbers P ∨ ∃ t, v = .n t := by
  fun_induction evaluateSetValue bd item maps e generalizing v with
  | case1 name => exact .inl (resolveValueFor_allNumbers hvalues h)
  | case2 elements =>
    obtain ⟨found, hfound, hr⟩ := unbind h
    split at hr
    · cases hr
      exact .inl (resolvePath_allNumbers hitem hfound)
    · cases hr
  | case3 left op right ihl ihr =>
    simp only [bind_eq_ok] at h
    obtain ⟨lv, -, rv, -, h⟩ := h
    obtain ⟨_, _, _, _, -, -, -, -, hv, -⟩ := evaluateArithmetic_ok h
    exact .inr ⟨_, hv⟩
  | case4 path value ih =>
    obtain ⟨existing, hexisting, hr⟩ := unbind h
    split at hr
    · cases hr
      exact .inl (existingValue_allNumbers hitem hexisting)
    · exact ih hr
  | case6 left right ihl ihr =>
    simp only [bind_eq_ok] at h
    obtain ⟨lv, hl, rv, hr, h⟩ := h
    obtain ⟨xs, ys, rfl, rfl, rfl⟩ := appendLists_ok h
    left
    have hxs := (ihl hl).resolve_right (by simp)
    have hys := (ihr hr).resolve_right (by simp)
    exact (allNumbers_leveled P).list_append (i := ()) hxs hys
  | case5 | case7 | case8 | case9 => cases h

end

/-! ## Numbers a statement computes -/

section

variable (bd : BigDecimalCrate) (maps : ExpressionMaps)

/-- `P` holds of the number the expression computes itself, where it does compute one. -/
def ComputedNumbers (item : Item) (P : String → Prop) : Expr → Prop
  | .arithmetic left op right =>
    ∀ t, evaluateSetValue bd item maps (.arithmetic left op right) = .ok (.n t) → P t
  | .function "if_not_exists" [path, value] =>
    existingValue path item maps = .ok none → ComputedNumbers item P value
  | _ => True
termination_by structural e => e

def AddComputes (P : String → Prop) (item : Item) : UpdateAction → Prop
  | .add path value =>
    match resolvePath path item maps with
    | .ok none => ComputedNumbers bd maps item P value
    | .ok (some (.n existing)) => ∀ added t, evaluateSetValue bd item maps value = .ok added →
        addedValue bd (some (.n existing)) added = .ok (.n t) → P t
    | _ => True
  | _ => True

/-- `P` holds of every number the statement computes: by SET from the item before the statement,
by ADD from the item before that action. -/
structure StatementComputes (P : String → Prop) (actions : List UpdateAction) (item : Item) :
    Prop where
  sets : ∀ path value, .set path value ∈ actions → ComputedNumbers bd maps item P value
  adds : ∀ afterSet afterRemove, actions.foldlM (setStep bd maps item) item = .ok afterSet →
    actions.foldlM (removeStep maps) afterSet = .ok afterRemove →
    RunSatisfies (addStep bd maps) (AddComputes bd maps P) actions afterRemove

def AddStores (P : String → Prop) (item : Item) : UpdateAction → Prop
  | .add path value => ∀ added existing new, evaluateSetValue bd item maps value = .ok added →
      resolvePath path item maps = .ok existing → addedValue bd existing added = .ok new →
      new.AllNumbers P
  | _ => True

/-- Every number in a value that the statement stores satisfies `P`: those of SET on the item before
the statement, those of ADD on the item before that action. -/
structure StatementStores (P : String → Prop) (actions : List UpdateAction) (item : Item) :
    Prop where
  sets : ∀ path value v, .set path value ∈ actions →
    evaluateSetValue bd item maps value = .ok v → v.AllNumbers P
  adds : ∀ afterSet afterRemove, actions.foldlM (setStep bd maps item) item = .ok afterSet →
    actions.foldlM (removeStep maps) afterSet = .ok afterRemove →
    RunSatisfies (addStep bd maps) (AddStores bd maps P) actions afterRemove

variable {bd maps}

theorem computedNumbers_valid (e) : ComputedNumbers bd maps item IsValidNumber e := by
  fun_induction ComputedNumbers bd maps item IsValidNumber e with
  | case1 left op right =>
    intro t ht
    obtain ⟨l, -, ht⟩ := unbind ht
    obtain ⟨r, -, ht⟩ := unbind ht
    obtain ⟨_, _, a, b, -, -, -, -, heq, hvalid⟩ := evaluateArithmetic_ok ht
    cases heq
    exact hvalid
  | case2 path value ih => exact fun _ => ih
  | case3 => trivial

/-- The value of an expression satisfies `P` exactly when the number it computes does. -/
theorem evaluateSetValue_allNumbers_iff {e v} (hitem : item.AllNumbers P)
    (hvalues : maps.AllNumbers P) (h : evaluateSetValue bd item maps e = .ok v) :
    v.AllNumbers P ↔ ComputedNumbers bd maps item P e := by
  fun_induction evaluateSetValue bd item maps e with
  | case1 name =>
    simpa [ComputedNumbers] using resolveValueFor_allNumbers hvalues h
  | case2 elements =>
    obtain ⟨found, hfound, hr⟩ := unbind h
    split at hr
    · cases hr
      simpa [ComputedNumbers] using resolvePath_allNumbers hitem hfound
    · cases hr
  | case3 left op right ihl ihr =>
    have heval : evaluateSetValue bd item maps (.arithmetic left op right) = .ok v := by
      exact h
    obtain ⟨lv, -, h⟩ := unbind h
    obtain ⟨rv, -, h⟩ := unbind h
    obtain ⟨_, _, _, _, -, -, -, -, rfl, -⟩ := evaluateArithmetic_ok h
    simp [ComputedNumbers, heval]
  | case4 path value ih =>
    obtain ⟨existing, hexisting, hr⟩ := unbind h
    simp only [ComputedNumbers, hexisting]
    split at hr
    · cases hr
      simpa using existingValue_allNumbers hitem hexisting
    · simpa using ih hr
  | case6 left right ihl ihr =>
    have hv := evaluateSetValue_allNumbers_or (e := .function "list_append" [left, right])
      hitem hvalues (by rw [evaluateSetValue]; exact h)
    obtain ⟨lv, -, h⟩ := unbind h
    obtain ⟨rv, -, h⟩ := unbind h
    obtain ⟨xs, ys, rfl, rfl, rfl⟩ := appendLists_ok h
    simpa [ComputedNumbers] using hv
  | case5 | case7 | case8 | case9 => cases h

variable {value : AttributeValue}

theorem remainingValue_allNumbers {existing new} (hexisting : existing.AllNumbers P)
    (h : remainingValue existing value = .ok (some new)) :
    new.AllNumbers P := by
  unfold remainingValue at h
  split at h
  · simp only [Except.ok.injEq, ite_none_left_eq_some, some.injEq] at h
    obtain ⟨-, rfl⟩ := h
    simp [AttributeValue.AllNumbers, numbers]
  · simp only [Except.ok.injEq, ite_none_left_eq_some, some.injEq] at h
    obtain ⟨-, rfl⟩ := h
    exact fun t ht => hexisting t (OrdSet.mem_difference.mp ht).1
  · simp only [Except.ok.injEq, ite_none_left_eq_some, some.injEq] at h
    obtain ⟨-, rfl⟩ := h
    simp [AttributeValue.AllNumbers, numbers]
  · cases h

/-- What ADD stores, from an existing value and an added one that satisfy `P`, given that a
computed sum does. -/
theorem addedValue_allNumbers {existing new} (hexisting : ∀ v, existing = some v → v.AllNumbers P)
    (hvalue : existing = none ∨ (∃ ts, value = .ns ts) → value.AllNumbers P)
    (hsum : ∀ t u, existing = some (.n t) → new = .n u → P u)
    (h : addedValue bd existing value = .ok new) : new.AllNumbers P := by
  unfold addedValue at h
  split at h
  · cases h
    exact hvalue (.inl rfl)
  · cases h
    exact hvalue (.inl rfl)
  · cases h
    exact hvalue (.inl rfl)
  · cases h
    exact hvalue (.inl rfl)
  · rename_i t added
    simp only [bind_eq_ok] at h
    obtain ⟨a, -, b, -, h⟩ := h
    obtain ⟨rfl, -⟩ := storeNumber_ok h
    exact allNumbers_n.mpr (hsum t _ rfl rfl)
  · cases h
    simp [AttributeValue.AllNumbers, numbers]
  · rename_i ts us
    cases h
    have hts := hexisting _ rfl
    have hus := hvalue (.inr ⟨us, rfl⟩)
    exact fun t ht => (OrdSet.mem_union.mp ht).elim (hts t) (hus t)
  · cases h
    simp [AttributeValue.AllNumbers, numbers]
  · cases h

variable {action : UpdateAction} {item' : Item}

theorem setStep_allNumbers {snapshot} (hstores : ∀ path value v, action = .set path value →
      evaluateSetValue bd snapshot maps value = .ok v → v.AllNumbers P) (hitem : item.AllNumbers P)
    (h : setStep bd maps snapshot item action = .ok item') :
    item'.AllNumbers P := by
  unfold setStep at h
  split at h
  · rename_i path value
    obtain ⟨v, hv, h⟩ := unbind h
    exact (allNumbers_leveled P).setPath hitem (below_unit _) (hstores path value v rfl hv) h
  · cases h
    exact hitem

theorem removeStep_allNumbers
    (hitem : item.AllNumbers P) (h : removeStep maps item action = .ok item') :
    item'.AllNumbers P := by
  unfold removeStep at h
  split at h
  · exact (allNumbers_leveled P).removePath (i := ()) hitem h
  · cases h
    exact hitem

theorem addStep_allNumbers (hitem : item.AllNumbers P)
    (hstores : AddStores bd maps P item action) (h : addStep bd maps item action = .ok item') :
    item'.AllNumbers P := by
  unfold addStep at h
  split at h
  · obtain ⟨v, hv, h⟩ := unbind h
    exact (allNumbers_leveled P).applyAdd (fun existing new hexisting _ hnew =>
      hstores v existing new hv hexisting hnew) hitem (below_unit _) h
  · cases h
    exact hitem

theorem deleteStep_allNumbers
    (hitem : item.AllNumbers P) (h : deleteStep bd maps item action = .ok item') :
    item'.AllNumbers P := by
  unfold deleteStep at h
  split at h
  · obtain ⟨v, -, h⟩ := unbind h
    exact (allNumbers_leveled P).applyDelete (i := ())
      (fun _ _ _ hexisting hnew => remainingValue_allNumbers hexisting hnew) hitem h
  · cases h
    exact hitem

variable {actions : List UpdateAction}

theorem afterRemove_allNumbers {afterSet afterRemove} (hitem : item.AllNumbers P)
    (hsets : ∀ path value v, .set path value ∈ actions →
      evaluateSetValue bd item maps value = .ok v → v.AllNumbers P)
    (hset : actions.foldlM (setStep bd maps item) item = .ok afterSet)
    (hremove : actions.foldlM (removeStep maps) afterSet = .ok afterRemove) :
    afterRemove.AllNumbers P := by
  have hafterSet : afterSet.AllNumbers P :=
    foldlM_invariant (Item.AllNumbers P) (fun s a s' ha hs hstep =>
      setStep_allNumbers (fun path value v heq hv => hsets path value v (heq ▸ ha) hv) hs hstep)
      hitem hset
  exact foldlM_invariant (Item.AllNumbers P)
    (fun _ _ _ _ hs hstep => removeStep_allNumbers hs hstep) hafterSet hremove

theorem StatementStores.allNumbers (hstores : StatementStores bd maps P actions item)
    (hitem : item.AllNumbers P) (h : applyUpdate bd maps actions item = .ok item') :
    item'.AllNumbers P := by
  obtain ⟨afterSet, hset, h⟩ := unbind h
  obtain ⟨afterRemove, hremove, h⟩ := unbind h
  obtain ⟨afterAdd, hadd, hdelete⟩ := unbind h
  have hafterAdd : afterAdd.AllNumbers P :=
    foldlM_invariant_of_run (Item.AllNumbers P)
      (fun _ _ _ hs hC hstep => addStep_allNumbers hs hC hstep)
      (hstores.adds afterSet afterRemove hset hremove)
      (afterRemove_allNumbers hitem hstores.sets hset hremove) hadd
  exact foldlM_invariant (Item.AllNumbers P)
    (fun _ _ _ _ hs hstep => deleteStep_allNumbers hs hstep) hafterAdd hdelete

/-! ## From the numbers computed to the values stored -/

theorem AddComputes.stores (hvalues : maps.AllNumbers P) (hitem : item.AllNumbers P)
    (h : AddComputes bd maps P item action) : AddStores bd maps P item action := by
  cases action with
  | add path value =>
    intro v existing new hv hexisting hnew
    simp only [AddComputes, hexisting] at h
    refine addedValue_allNumbers (fun w hw => resolvePath_allNumbers hitem (hw ▸ hexisting)) ?_ ?_ hnew
    · rintro (rfl | ⟨ts, rfl⟩)
      · exact (evaluateSetValue_allNumbers_iff hitem hvalues hv).mpr h
      · exact (evaluateSetValue_allNumbers_or hitem hvalues hv).resolve_right (by simp)
    · rintro t u rfl rfl
      exact h v u hv hnew
  | _ => trivial

theorem StatementComputes.stores (hitem : item.AllNumbers P) (hvalues : maps.AllNumbers P)
    (h : StatementComputes bd maps P actions item) : StatementStores bd maps P actions item := by
  have hsets path value v (hmem : .set path value ∈ actions)
      (hv : evaluateSetValue bd item maps value = .ok v) : v.AllNumbers P :=
    (evaluateSetValue_allNumbers_iff hitem hvalues hv).mpr (h.sets path value hmem)
  refine ⟨hsets, fun afterSet afterRemove hset hremove => ?_⟩
  exact .imp (Item.AllNumbers P)
    (fun _ _ _ _ hs hC hstep => addStep_allNumbers hs (hC.stores hvalues hs) hstep)
    (fun _ _ _ hs hC => hC.stores hvalues hs) (afterRemove_allNumbers hitem hsets hset hremove)
    (h.adds afterSet afterRemove hset hremove)

/-! ## What a statement of one action stores -/

theorem setNested_stores {current r} (h : setNested maps value path current = .ok r)
    (hr : r.AllNumbers P) : value.AllNumbers P := by
  fun_induction setNested maps value path current generalizing r with
  | case1 | case5 | case8 | case9 => cases h
  | case2 ref map =>
    obtain ⟨name, -, h⟩ := unbind h
    cases h
    exact allNumbers_m.mp hr _ (mem_insert_self map name value)
  | case3 idx list hidx =>
    cases h
    exact allNumbers_l.mp hr _ (List.mem_set hidx value)
  | case4 idx list hidx =>
    cases h
    exact allNumbers_l.mp hr _ (by simp)
  | case6 ref rest map hrest ih =>
    obtain ⟨name, -, h⟩ := unbind h
    split at h
    · rename_i entry hget
      obtain ⟨entry', hentry, h⟩ := unbind h
      cases h
      exact ih entry hentry (allNumbers_m.mp hr _ (mem_insert_self map name entry'))
    · cases h
  | case7 idx rest list hrest entry hget ih =>
    obtain ⟨entry', hentry, h⟩ := unbind h
    cases h
    obtain ⟨hidx, -⟩ := getElem?_eq_some_iff.mp hget
    exact ih hentry (allNumbers_l.mp hr _ (List.mem_set hidx entry'))

theorem setPath_stores
    (h : setPath item path value maps = .ok item') (hitem' : item'.AllNumbers P) :
    value.AllNumbers P := by
  unfold setPath at h
  split at h
  · cases h
  · obtain ⟨name, -, h⟩ := unbind h
    cases h
    exact hitem' _ (mem_insert_self item name value)
  · obtain ⟨name, -, h⟩ := unbind h
    split at h
    · rename_i current hget
      obtain ⟨child, hchild, h⟩ := unbind h
      cases h
      exact setNested_stores hchild (hitem' _ (mem_insert_self item name child))
    · cases h

theorem descendOrCreate_stores {k current r} (h : descendOrCreate maps k path current = .ok r)
    (hr : r.AllNumbers P) :
    ∃ target target', targetMap maps path current = some target ∧ k target = .ok target' ∧
      target'.AllNumbers P := by
  fun_induction descendOrCreate maps k path current generalizing r with
  | case1 map =>
    obtain ⟨map', hmap', h⟩ := unbind h
    cases h
    exact ⟨map, map', rfl, hmap', allNumbers_m.mp hr⟩
  | case2 | case5 | case6 => cases h
  | case3 ref rest current ih =>
    obtain ⟨name, hname, hstep⟩ := unbind h
    split at hstep
    · rename_i map
      obtain ⟨child, hchild, hstep⟩ := unbind hstep
      cases hstep
      simp only [targetMap, hname]
      exact ih name map hchild (allNumbers_m.mp hr _ (mem_insert_self map name child))
    · cases hstep
  | case4 idx rest list entry hget ih =>
    obtain ⟨entry', hentry, h⟩ := unbind h
    cases h
    obtain ⟨hidx, -⟩ := getElem?_eq_some_iff.mp hget
    simp only [targetMap, hget]
    exact ih hentry (allNumbers_l.mp hr _ (List.mem_set hidx entry'))

theorem applyAdd_stores
    (h : applyAdd bd item path value maps = .ok item') (hitem' : item'.AllNumbers P) :
    ∃ existing new, resolvePath path item maps = .ok existing ∧
      addedValue bd existing value = .ok new ∧ new.AllNumbers P := by
  have htarget : ∃ target target' : Item, addTarget item path maps = some target ∧
      (do let attrName ← lastAttrName path maps "ADD"
          let newValue ← addedValue bd (get? target attrName) value
          pure (insert target attrName newValue)) = .ok target' ∧
      Item.AllNumbers P target' := by
    unfold applyAdd navigateToParentMapOrCreate at h
    split at h
    · exact ⟨item, item', rfl, h, hitem'⟩
    · exact ⟨item, item', rfl, h, hitem'⟩
    simp only [bind_eq_ok] at h
    obtain ⟨name, hname, child, hchild, h⟩ := h
    cases h
    simp only [addTarget, hname]
    exact descendOrCreate_stores hchild (hitem' _ (mem_insert_self item name child))
  obtain ⟨target, target', htarget, hk, hstored⟩ := htarget
  simp only [bind_eq_ok] at hk
  obtain ⟨name, hname, new, hnew, hk⟩ := hk
  cases hk
  exact ⟨_, new, resolvePath_addTarget htarget hname, hnew,
    hstored _ (mem_insert_self target name new)⟩

theorem statementStores_of_singleton
    (h : applyUpdate bd maps [action] item = .ok item') (hitem' : item'.AllNumbers P) :
    StatementStores bd maps P [action] item := by
  cases action with
  | set path value =>
    rw [applyUpdate_set] at h
    obtain ⟨v, hv, hset⟩ := unbind h
    refine ⟨fun path' value' v' hmem hv' => ?_, fun _ _ _ _ => ⟨trivial, fun _ _ => trivial⟩⟩
    cases List.mem_singleton.mp hmem
    cases hv.symm.trans hv'
    exact setPath_stores hset hitem'
  | remove path | delete path value =>
    exact ⟨fun _ _ _ hmem => by simp at hmem, fun _ _ _ _ => ⟨trivial, fun _ _ => trivial⟩⟩
  | add path value =>
    rw [applyUpdate_add] at h
    obtain ⟨v, hv, hadd⟩ := unbind h
    refine ⟨fun _ _ _ hmem => by simp at hmem, fun _ _ hset hremove => ?_⟩
    cases hset
    cases hremove
    refine ⟨fun added existing new hadded hexisting hnew => ?_, fun _ _ => trivial⟩
    obtain ⟨existing', new', hexisting', hnew', hstored⟩ := applyAdd_stores hadd hitem'
    cases hv.symm.trans hadded
    cases hexisting.symm.trans hexisting'
    cases hnew.symm.trans hnew'
    exact hstored

theorem statementStores_of_removesOnly
    (h : removesOnly actions = true) : StatementStores bd maps P actions item := by
  rw [removesOnly, Bool.and_eq_true, List.all_eq_true] at h
  refine ⟨fun path value v hmem _ => ?_, fun _ _ _ _ => .of_forall (fun _ a ha => ?_) _⟩
  · cases h.2 _ hmem
  have hremoves := h.2 a ha
  cases a with
  | add path value => cases hremoves
  | _ => trivial

/-! ## Computed numbers -/

theorem addComputes_valid (action) : AddComputes bd maps IsValidNumber item action := by
  unfold AddComputes
  split
  · split
    · exact computedNumbers_valid _
    · intro added t _ hadded
      cases added with
      | n text =>
        obtain ⟨a, -, hadded⟩ := unbind hadded
        obtain ⟨b, -, hadded⟩ := unbind hadded
        obtain ⟨heq, hvalid⟩ := storeNumber_ok hadded
        cases heq
        exact hvalid
      | _ => cases hadded
    · trivial
  · trivial

theorem applyUpdate_validNumbers
    (hitem : item.AllNumbers IsValidNumber) (hvalues : maps.AllNumbers IsValidNumber)
    (h : applyUpdate bd maps actions item = .ok item') : item'.AllNumbers IsValidNumber :=
  have hcomputes : StatementComputes bd maps IsValidNumber actions item :=
    ⟨fun _ _ _ => computedNumbers_valid _, fun _ _ _ _ => .of_forall
      (fun _ a _ => addComputes_valid a) _⟩
  (hcomputes.stores hitem hvalues).allNumbers hitem h

end

end ExtendDb
