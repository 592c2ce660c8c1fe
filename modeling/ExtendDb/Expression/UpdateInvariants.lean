import ExtendDb.Expression.UpdateEvaluator

/-!
# Invariants of stored values under update

An invariant of values is *leveled* when it holds of a list or a map exactly when it holds of the
members one level down.
-/

namespace ExtendDb

open Fallible List Option OrdMap

/-- A property of values that passes from a container to its members. -/
structure Leveled {ι : Type} (child : ι → Option ι) (Q : ι → AttributeValue → Prop) : Prop where
  list : ∀ i vs, Q i (.l vs) ↔ ∃ j, child i = some j ∧ ∀ v ∈ vs, Q j v
  map : ∀ i es, Q i (.m es) ↔ ∃ j, child i = some j ∧ ∀ e ∈ es, Q j e.2

def below {ι : Type} (child : ι → Option ι) (i : ι) : Nat → Option ι
  | 0 => some i
  | n + 1 => (child i).bind (fun j => below child j n)

theorem below_succ {ι : Type} {child} {i k : ι} (hk : child i = some k) (n) :
    below child i (n + 1) = below child k n := by
  simp [below, hk]

def Item.Leveled {ι : Type} (Q : ι → AttributeValue → Prop) (i : ι) (item : Item) : Prop :=
  ∀ e ∈ item, Q i e.2

/-- The map at the end of an ADD walk: the one that is there, or the empty one created there. -/
def targetMap (maps : ExpressionMaps) : List PathElement → AttributeValue → Option Item
  | [], .m map => some map
  | .attr ref :: rest, .m map =>
    match resolveNameRef ref maps with
    | .ok name => targetMap maps rest ((get? map name).getD (.m []))
    | .error _ => none
  | .index idx :: rest, .l list =>
    match list[idx]? with
    | some entry => targetMap maps rest entry
    | none => none
  | _, _ => none

def addTarget (item : Item) (path : List PathElement) (maps : ExpressionMaps) : Option Item :=
  match path with
  | [] | [_] => some item
  | first :: rest =>
    match resolveElementName first maps with
    | .ok name => targetMap maps rest.dropLast ((get? item name).getD (.m []))
    | .error _ => none

variable {maps : ExpressionMaps} {path : List PathElement} {target : Item}

private theorem targetMap_empty (h : targetMap maps path (.m []) = some target) : target = [] := by
  induction path with
  | nil =>
    cases h
    rfl
  | cons element rest ih =>
    cases element with
    | index idx => cases h
    | attr ref =>
      rw [targetMap] at h
      split at h
      · exact ih h
      · cases h

variable {name : String}

private theorem walkPath_target {current ref} (htarget : targetMap maps path current = some target)
    (hname : resolveNameRef ref maps = .ok name) :
    walkPath maps (path ++ [.attr ref]) current = .ok (get? target name) := by
  fun_induction targetMap maps path current with
  | case1 map =>
    cases htarget
    simp only [nil_append, walkPath, hname, ok_bind]
    cases get? target name <;> rfl
  | case2 r rest map n hn ih =>
    simp only [cons_append, walkPath, hn, ok_bind]
    cases hget : get? map n with
    | some v =>
      simp only [hget] at ih htarget
      exact ih htarget
    | none =>
      simp only [hget] at htarget
      simp [targetMap_empty htarget]
  | case4 idx rest list entry hget ih =>
    simp only [cons_append, walkPath, hget]
    exact ih htarget
  | case3 | case5 | case6 => cases htarget

variable {item : Item}

theorem resolvePath_addTarget {action} (htarget : addTarget item path maps = some target)
    (hname : lastAttrName path maps action = .ok name) :
    resolvePath path item maps = .ok (get? target name) := by
  unfold addTarget at htarget
  split at htarget
  · cases hname
  · cases htarget
    rename_i first
    have hfirst : resolveElementName first maps = .ok name := hname
    simp only [resolvePath, hfirst, ok_bind]
    cases get? target name <;> rfl
  · rename_i first rest hrest
    obtain ⟨front, last, rfl⟩ : ∃ front last, rest = front ++ [last] :=
      ⟨rest.dropLast, rest.getLast hrest, (dropLast_append_getLast hrest).symm⟩
    split at htarget
    · rename_i n hn
      have hlast : resolveElementName last maps = .ok name := by
        simpa [lastAttrName, getLast?_cons] using hname
      cases last with
      | index idx => cases hlast
      | attr ref =>
        rw [dropLast_concat] at htarget
        simp only [resolvePath, hn, ok_bind]
        cases hget : get? item n with
        | some v =>
          simp only [hget] at htarget
          exact walkPath_target htarget hlast
        | none =>
          simp only [hget] at htarget
          simp [targetMap_empty htarget]
    · cases htarget

variable {ι : Type} {child : ι → Option ι} {Q : ι → AttributeValue → Prop}

/-! ## Items -/

variable {i : ι} {v : AttributeValue}

theorem Item.Leveled.insert (h : Item.Leveled Q i item)
    (hv : Q i v) : Item.Leveled Q i (insert item name v) := by
  intro e he
  rcases mem_insert he with rfl | he
  · exact hv
  · exact h e he

theorem Item.Leveled.erase (h : Item.Leveled Q i item) (name) :
    Item.Leveled Q i (erase item name) :=
  fun e he => h e (mem_erase he)

theorem Item.Leveled.get (h : Item.Leveled Q i item) (hget : get? item name = some v) : Q i v :=
  h (name, v) (mem_of_get? hget)

/-! ## Containers -/

variable {value : AttributeValue} {k : Item → Result Item}

namespace Leveled

variable (hQ : Leveled child Q)
include hQ

theorem map_iff {map : Item} : Q i (.m map) ↔ ∃ j, child i = some j ∧ Item.Leveled Q j map :=
  hQ.map i map

variable {vs : List AttributeValue} {j : ι}

theorem list_set (h : Q i (.l vs)) (hj : child i = some j) (idx) (hv : Q j v) :
    Q i (.l (vs.set idx v)) := by
  obtain ⟨j', hj', hvs⟩ := (hQ.list i vs).mp h
  cases hj.symm.trans hj'
  refine (hQ.list i _).mpr ⟨j, hj, fun w hw => ?_⟩
  rcases mem_or_eq_of_mem_set hw with hmem | rfl
  · exact hvs w hmem
  · exact hv

theorem list_append {ws} (hv : Q i (.l vs)) (hw : Q i (.l ws)) : Q i (.l (vs ++ ws)) := by
  obtain ⟨j, hj, hvs⟩ := (hQ.list i vs).mp hv
  obtain ⟨j', hj', hws⟩ := (hQ.list i ws).mp hw
  cases hj.symm.trans hj'
  refine (hQ.list i _).mpr ⟨j, hj, fun u hu => ?_⟩
  exact (mem_append.mp hu).elim (hvs u) (hws u)

theorem list_eraseIdx (h : Q i (.l vs)) (idx) : Q i (.l (vs.eraseIdx idx)) := by
  obtain ⟨j, hj, hvs⟩ := (hQ.list i vs).mp h
  exact (hQ.list i _).mpr ⟨j, hj, fun v hv => hvs v (mem_of_mem_eraseIdx hv)⟩

theorem list_get (h : Q i (.l vs)) {idx : Nat}
    (hget : vs[idx]? = some v) : ∃ j, child i = some j ∧ Q j v := by
  obtain ⟨j, hj, hvs⟩ := (hQ.list i vs).mp h
  exact ⟨j, hj, hvs v (mem_of_getElem? hget)⟩

/-! ## Walks -/

theorem setNested {current r} (hcurrent : Q i current) (hbelow : below child i path.length = some j)
    (hvalue : Q j value) (h : setNested maps value path current = .ok r) : Q i r := by
  fun_induction ExtendDb.setNested maps value path current generalizing i r with
  | case1 | case5 | case8 | case9 => cases h
  | case2 ref map =>
    obtain ⟨name, -, hr⟩ := unbind h
    cases hr
    obtain ⟨k, hk, hmap⟩ := hQ.map_iff.mp hcurrent
    cases (below_succ hk 0).symm.trans hbelow
    exact hQ.map_iff.mpr ⟨j, hk, hmap.insert hvalue⟩
  | case3 idx list hidx =>
    cases h
    obtain ⟨k, hk, -⟩ := (hQ.list i list).mp hcurrent
    cases (below_succ hk 0).symm.trans hbelow
    exact hQ.list_set hcurrent hk idx hvalue
  | case4 idx list hidx =>
    cases h
    obtain ⟨k, hk, -⟩ := (hQ.list i list).mp hcurrent
    cases (below_succ hk 0).symm.trans hbelow
    exact hQ.list_append hcurrent ((hQ.list i _).mpr ⟨j, hk, by simpa using hvalue⟩)
  | case6 ref rest map hrest ih =>
    obtain ⟨name, -, hr⟩ := unbind h
    obtain ⟨k, hk, hmap⟩ := hQ.map_iff.mp hcurrent
    rw [length_cons, below_succ hk] at hbelow
    cases hget : get? map name with
    | none => simp [hget] at hr
    | some entry =>
      rw [hget] at hr
      obtain ⟨entry', hentry, hr⟩ := unbind hr
      cases hr
      exact hQ.map_iff.mpr ⟨k, hk, hmap.insert (ih entry (hmap.get hget) hbelow hentry)⟩
  | case7 idx rest list hrest entry hget ih =>
    obtain ⟨entry', hentry, hr⟩ := unbind h
    cases hr
    obtain ⟨k, hk, hv⟩ := hQ.list_get hcurrent hget
    rw [length_cons, below_succ hk] at hbelow
    exact hQ.list_set hcurrent hk idx (ih hv hbelow hentry)

theorem removeNested {current r} (hcurrent : Q i current)
    (h : removeNested maps path current = .ok r) : Q i r := by
  fun_induction ExtendDb.removeNested maps path current generalizing i r with
  | case1 | case4 | case7 | case8 =>
    cases h
    exact hcurrent
  | case2 ref map =>
    obtain ⟨name, -, hr⟩ := unbind h
    cases hr
    obtain ⟨k, hk, hmap⟩ := hQ.map_iff.mp hcurrent
    exact hQ.map_iff.mpr ⟨k, hk, hmap.erase name⟩
  | case3 idx list =>
    cases h
    exact hQ.list_eraseIdx hcurrent idx
  | case5 ref rest map hrest ih =>
    obtain ⟨name, -, hr⟩ := unbind h
    obtain ⟨k, hk, hmap⟩ := hQ.map_iff.mp hcurrent
    cases hget : get? map name with
    | none =>
      rw [hget] at hr
      cases hr
      exact hcurrent
    | some entry =>
      rw [hget] at hr
      obtain ⟨entry', hentry, hr⟩ := unbind hr
      cases hr
      exact hQ.map_iff.mpr ⟨k, hk, hmap.insert (ih entry (hmap.get hget) hentry)⟩
  | case6 idx rest list hrest entry hget ih =>
    obtain ⟨entry', hentry, hr⟩ := unbind h
    cases hr
    obtain ⟨k, hk, hv⟩ := hQ.list_get hcurrent hget
    exact hQ.list_set hcurrent hk idx (ih hv hentry)

theorem descend {current r}
    (hk : ∀ j map map', Item.Leveled Q j map → k map = .ok map' → Item.Leveled Q j map')
    (hcurrent : Q i current) (h : descend maps k path current = .ok r) : Q i r := by
  fun_induction ExtendDb.descend maps k path current generalizing i r with
  | case1 map =>
    obtain ⟨map', hmap', hr⟩ := unbind h
    cases hr
    obtain ⟨j, hj, hmap⟩ := hQ.map_iff.mp hcurrent
    exact hQ.map_iff.mpr ⟨j, hj, hk j map map' hmap hmap'⟩
  | case2 | case5 | case6 =>
    cases h
    exact hcurrent
  | case3 ref rest current ih =>
    obtain ⟨name, -, hr⟩ := unbind h
    split at hr
    · rename_i map
      obtain ⟨j, hj, hmap⟩ := hQ.map_iff.mp hcurrent
      split at hr
      · rename_i next hget
        obtain ⟨child', hchild, hr⟩ := unbind hr
        cases hr
        exact hQ.map_iff.mpr ⟨j, hj, hmap.insert (ih next (hmap.get hget) hchild)⟩
      · cases hr
        exact hcurrent
    · cases hr
      exact hcurrent
  | case4 idx rest list entry hget ih =>
    obtain ⟨entry', hentry, hr⟩ := unbind h
    cases hr
    obtain ⟨j, hj, hv⟩ := hQ.list_get hcurrent hget
    exact hQ.list_set hcurrent hj idx (ih hv hentry)

theorem getD_empty {map} (hmap : Item.Leveled Q i map) (name) {n}
    (hbelow : below child i (n + 1) = some j) : Q i ((get? map name).getD (.m [])) := by
  cases hget : get? map name with
  | some v => exact hmap.get hget
  | none =>
    cases hl : child i with
    | none => simp [below, hl] at hbelow
    | some l => exact hQ.map_iff.mpr ⟨l, hl, fun _ he => absurd he not_mem_nil⟩

/-- The walk of ADD, which creates the maps it misses: the level of the last map's entries must
exist. -/
theorem descendOrCreate {current r}
    (hk : ∀ map map', targetMap maps path current = some map → Item.Leveled Q j map →
      k map = .ok map' → Item.Leveled Q j map') (hcurrent : Q i current)
    (hbelow : below child i (path.length + 1) = some j)
    (h : descendOrCreate maps k path current = .ok r) : Q i r := by
  fun_induction ExtendDb.descendOrCreate maps k path current generalizing i r with
  | case1 map =>
    obtain ⟨map', hmap', hr⟩ := unbind h
    cases hr
    obtain ⟨l, hl, hmap⟩ := hQ.map_iff.mp hcurrent
    cases (below_succ hl 0).symm.trans hbelow
    exact hQ.map_iff.mpr ⟨j, hl, hk map map' rfl hmap hmap'⟩
  | case2 | case5 | case6 => cases h
  | case3 ref rest current ih =>
    obtain ⟨name, hname, hr⟩ := unbind h
    split at hr
    · rename_i map
      obtain ⟨l, hl, hmap⟩ := hQ.map_iff.mp hcurrent
      rw [below_succ hl] at hbelow
      obtain ⟨child', hchild, hr⟩ := unbind hr
      cases hr
      simp only [targetMap, hname] at hk
      exact hQ.map_iff.mpr ⟨l, hl,
        hmap.insert (ih name map hk (hQ.getD_empty hmap name hbelow) hbelow hchild)⟩
    · cases hr
  | case4 idx rest list entry hget ih =>
    obtain ⟨entry', hentry, hr⟩ := unbind h
    cases hr
    obtain ⟨l, hl, hv⟩ := hQ.list_get hcurrent hget
    rw [below_succ hl] at hbelow
    simp only [targetMap, hget] at hk
    exact hQ.list_set hcurrent hl idx (ih hk hv hbelow hentry)

/-! ## Paths of an item -/

variable {item' : Item}

theorem setPath {item} (hitem : Item.Leveled Q i item)
    (hbelow : below child i (path.length - 1) = some j) (hvalue : Q j value)
    (h : setPath item path value maps = .ok item') : Item.Leveled Q i item' := by
  unfold ExtendDb.setPath at h
  split at h
  · cases h
  · obtain ⟨name, -, hr⟩ := unbind h
    cases hr
    cases hbelow
    exact hitem.insert hvalue
  · rename_i first rest _
    obtain ⟨name, -, hr⟩ := unbind h
    split at hr
    · rename_i current hget
      obtain ⟨value', hvalue', hr⟩ := unbind hr
      cases hr
      exact hitem.insert (hQ.setNested (hitem.get hget) hbelow hvalue hvalue')
    · cases hr

theorem removePath {item} (hitem : Item.Leveled Q i item)
    (h : removePath item path maps = .ok item') :
    Item.Leveled Q i item' := by
  unfold ExtendDb.removePath at h
  split at h
  · cases h
    exact hitem
  · obtain ⟨name, -, hr⟩ := unbind h
    cases hr
    exact hitem.erase name
  · obtain ⟨name, -, hr⟩ := unbind h
    split at hr
    · rename_i current hget
      obtain ⟨value', hvalue', hr⟩ := unbind hr
      cases hr
      exact hitem.insert (hQ.removeNested (hitem.get hget) hvalue')
    · cases hr
      exact hitem

theorem navigateToParentMap {item}
    (hk : ∀ j map map', Item.Leveled Q j map → k map = .ok map' → Item.Leveled Q j map')
    (hitem : Item.Leveled Q i item) (h : navigateToParentMap item path maps k = .ok item') :
    Item.Leveled Q i item' := by
  unfold ExtendDb.navigateToParentMap at h
  split at h
  · exact hk i item item' hitem h
  · exact hk i item item' hitem h
  obtain ⟨name, -, hr⟩ := unbind h
  split at hr
  · rename_i current hget
    obtain ⟨value', hvalue', hr⟩ := unbind hr
    cases hr
    exact hitem.insert (hQ.descend hk (hitem.get hget) hvalue')
  · cases hr
    exact hitem

theorem navigateToParentMapOrCreate {item}
    (hk : ∀ map map', addTarget item path maps = some map → Item.Leveled Q j map →
      k map = .ok map' → Item.Leveled Q j map') (hitem : Item.Leveled Q i item)
    (hbelow : below child i (path.length - 1) = some j)
    (h : navigateToParentMapOrCreate item path maps k = .ok item') : Item.Leveled Q i item' := by
  unfold ExtendDb.navigateToParentMapOrCreate at h
  split at h
  · cases hbelow
    exact hk item item' rfl hitem h
  · cases hbelow
    exact hk item item' rfl hitem h
  · rename_i first rest hrest
    obtain ⟨name, hname, hr⟩ := unbind h
    obtain ⟨value', hvalue', hr⟩ := unbind hr
    cases hr
    -- the last element is not walked: one level more than the walk is long
    have hlen : (first :: rest).length - 1 = rest.dropLast.length + 1 := by
      cases rest with
      | nil => exact (hrest rfl).elim
      | cons second rest => simp
    rw [hlen] at hbelow
    simp only [addTarget, hname] at hk
    exact hitem.insert (hQ.descendOrCreate hk (hQ.getD_empty hitem name hbelow) hbelow hvalue')

/-! ## ADD and DELETE -/

theorem applyAdd {bd item}
    (hadded : ∀ existing newValue, resolvePath path item maps = .ok existing →
      (∀ v, existing = some v → Q j v) → addedValue bd existing value = .ok newValue → Q j newValue)
    (hitem : Item.Leveled Q i item) (hbelow : below child i (path.length - 1) = some j)
    (h : applyAdd bd item path value maps = .ok item') : Item.Leveled Q i item' := by
  refine hQ.navigateToParentMapOrCreate (fun map map' htarget hmap hk => ?_) hitem hbelow h
  simp only [bind_eq_ok] at hk
  obtain ⟨name, hname, newValue, hnew, hk⟩ := hk
  cases hk
  exact hmap.insert (hadded _ _ (resolvePath_addTarget htarget hname) (fun v hv => hmap.get hv) hnew)

theorem applyDelete {item}
    (hremaining : ∀ j existing new, Q j existing → remainingValue existing value = .ok (some new) →
      Q j new) (hitem : Item.Leveled Q i item) (h : applyDelete item path value maps = .ok item') :
    Item.Leveled Q i item' := by
  refine hQ.navigateToParentMap (fun j map map' hmap hk => ?_) hitem h
  obtain ⟨name, -, hk⟩ := unbind hk
  split at hk
  · cases hk
    exact hmap
  rename_i existing hget
  obtain ⟨remaining, hrem, hk⟩ := unbind hk
  split at hk
  · cases hk
    exact hmap.insert (hremaining j existing _ (hmap.get hget) hrem)
  · cases hk
    exact hmap.erase name

end Leveled

/-! ## What an update leaves alone -/

def Avoids (maps : ExpressionMaps) (name : String) (path : List PathElement) : Prop :=
  ∀ first rest, path = first :: rest → resolveElementName first maps ≠ .ok name

theorem Avoids.head_ne {first rest firstName} (h : Avoids maps name (first :: rest))
    (hfirst : resolveElementName first maps = .ok firstName) : firstName ≠ name := by
  rintro rfl
  exact h _ _ rfl hfirst

section

variable {bd : BigDecimalCrate} {item item' : Item}

section

variable (hpath : Avoids maps name path)
include hpath

theorem setPath_get? (h : setPath item path value maps = .ok item') :
    get? item' name = get? item name := by
  unfold setPath at h
  split at h
  · cases h
  · obtain ⟨firstName, hfirst, h⟩ := unbind h
    cases h
    exact get?_insert_of_ne _ _ (hpath.head_ne hfirst)
  · obtain ⟨firstName, hfirst, h⟩ := unbind h
    split at h
    · obtain ⟨child, -, h⟩ := unbind h
      cases h
      exact get?_insert_of_ne _ _ (hpath.head_ne hfirst)
    · cases h

theorem removePath_get? (h : removePath item path maps = .ok item') :
    get? item' name = get? item name := by
  unfold removePath at h
  split at h
  · cases h
    rfl
  · obtain ⟨firstName, hfirst, h⟩ := unbind h
    cases h
    exact get?_erase_of_ne _ (hpath.head_ne hfirst)
  · obtain ⟨firstName, hfirst, h⟩ := unbind h
    split at h
    · obtain ⟨child, -, h⟩ := unbind h
      cases h
      exact get?_insert_of_ne _ _ (hpath.head_ne hfirst)
    · cases h
      rfl

theorem Avoids.lastAttrName_ne {action attrName} (hshort : path.length ≤ 1)
    (h : lastAttrName path maps action = .ok attrName) :
    attrName ≠ name := by
  match path, hshort with
  | [], _ => cases h
  | [first], _ => exact hpath.head_ne h

section

variable (hk : path.length ≤ 1 → ∀ item', k item = .ok item' → get? item' name = get? item name)
include hk

theorem navigateToParentMapOrCreate_get?
    (h : navigateToParentMapOrCreate item path maps k = .ok item') :
    get? item' name = get? item name := by
  unfold navigateToParentMapOrCreate at h
  split at h
  · exact hk (by simp) _ h
  · exact hk (by simp) _ h
  simp only [bind_eq_ok] at h
  obtain ⟨firstName, hfirst, child, -, h⟩ := h
  cases h
  exact get?_insert_of_ne _ _ (hpath.head_ne hfirst)

theorem navigateToParentMap_get?
    (h : navigateToParentMap item path maps k = .ok item') : get? item' name = get? item name := by
  unfold navigateToParentMap at h
  split at h
  · exact hk (by simp) _ h
  · exact hk (by simp) _ h
  obtain ⟨firstName, hfirst, h⟩ := unbind h
  split at h
  · obtain ⟨child, -, h⟩ := unbind h
    cases h
    exact get?_insert_of_ne _ _ (hpath.head_ne hfirst)
  · cases h
    rfl

end

theorem applyAdd_get? (h : applyAdd bd item path value maps = .ok item') :
    get? item' name = get? item name := by
  refine navigateToParentMapOrCreate_get? hpath (fun hshort new hnew => ?_) h
  simp only [bind_eq_ok] at hnew
  obtain ⟨attrName, hlast, added, -, hnew⟩ := hnew
  cases hnew
  exact get?_insert_of_ne _ _ (hpath.lastAttrName_ne hshort hlast)

theorem applyDelete_get? (h : applyDelete item path value maps = .ok item') :
    get? item' name = get? item name := by
  refine navigateToParentMap_get? hpath (fun hshort new hnew => ?_) h
  obtain ⟨attrName, hlast, hnew⟩ := unbind hnew
  have hne := hpath.lastAttrName_ne hshort hlast
  split at hnew
  · cases hnew
    rfl
  obtain ⟨remaining, -, hnew⟩ := unbind hnew
  split at hnew
  · cases hnew
    exact get?_insert_of_ne _ _ hne
  · cases hnew
    exact get?_erase_of_ne _ hne

end

theorem applyUpdate_get? {actions} (hpaths : ∀ a ∈ actions, Avoids maps name a.path)
    (h : applyUpdate bd maps actions item = .ok item') : get? item' name = get? item name := by
  -- each pass keeps the attribute, whichever actions it skips
  have hpass {step : Item → UpdateAction → Result Item} {before after : Item}
      (hstep : ∀ s a s', Avoids maps name a.path → step s a = .ok s' → get? s' name = get? s name)
      (hrun : actions.foldlM step before = .ok after) :
      get? after name = get? before name :=
    foldlM_invariant (fun s => get? s name = get? before name)
      (fun s a s' ha hs hs' => (hstep s a s' (hpaths a ha) hs').trans hs) rfl hrun
  obtain ⟨afterSet, hset, h⟩ := unbind h
  obtain ⟨afterRemove, hremove, h⟩ := unbind h
  obtain ⟨afterAdd, hadd, hdelete⟩ := unbind h
  rw [hpass ?_ hdelete, hpass ?_ hadd, hpass ?_ hremove, hpass ?_ hset]
  all_goals
    intro s a s' ha hs'
    cases a with
    | set path value => first
        | (cases hs'; rfl)
        | (obtain ⟨v, -, hs'⟩ := unbind hs'; exact setPath_get? ha hs')
    | remove path => first
        | (cases hs'; rfl)
        | exact removePath_get? ha hs'
    | add path value => first
        | (cases hs'; rfl)
        | (obtain ⟨v, -, hs'⟩ := unbind hs'; exact applyAdd_get? ha hs')
    | delete path value => first
        | (cases hs'; rfl)
        | (obtain ⟨v, -, hs'⟩ := unbind hs'; exact applyDelete_get? ha hs')

end

end ExtendDb
