import ExtendDb.Expression.Placement

/-!
# Where the clauses of a multi-attribute key condition go

A condition that `resolve_multipart_with` accepts has one equality for each HASH attribute, in the
order of the key schema, and its other clauses are on RANGE attributes; no clause is lost.
-/

namespace ExtendDb

open List Fallible WrittenClause KeyCondition AssignedClauses Option

/-- Two strictly ascending lists of the numbers below `n`. -/
theorem eq_range_of_pairwise {ps n} (hsorted : ps.Pairwise (· < ·)) (hmem : ∀ i, i ∈ ps ↔ i < n) :
    ps = range n := by
  have hperm : ps.Perm (range n) := by
    rw [perm_ext_iff_of_nodup (hsorted.imp Nat.ne_of_lt) nodup_range]
    simpa using hmem
  exact List.Perm.eq_of_pairwise' hsorted pairwise_lt_range hperm

variable {eqs : List (Nat × KeyEquality)}

theorem pairwise_lt_of_not_repeats
    (hsorted : eqs.Pairwise fun e f => e.1 ≤ f.1) (h : repeatsPosition eqs = false) :
    (eqs.map (·.1)).Pairwise (· < ·) := by
  induction eqs with
  | nil => exact .nil
  | cons e eqs ih =>
    cases eqs with
    | nil => simp
    | cons f eqs =>
      rw [repeatsPosition, Bool.or_eq_false_iff, beq_eq_false_iff_ne] at h
      have htail := ih hsorted.of_cons h.2
      rw [map_cons, pairwise_cons]
      refine ⟨fun pos hpos => ?_, htail⟩
      have hef : e.1 < f.1 :=
        lt_of_le_of_ne (rel_of_pairwise_cons hsorted (by simp)) h.1
      rcases mem_cons.mp hpos with rfl | hpos
      · exact hef
      · exact hef.trans (rel_of_pairwise_cons htail hpos)

/-! ## Assignment by name -/

def AtPositions (names : List (String × String)) (attrs : List String)
    (eqs : List (Nat × KeyEquality)) : Prop :=
  ∀ e ∈ eqs, ∃ attr, resolvePathAttr e.2.1 names = .ok attr ∧ attrs[e.1]? = some attr

variable {attrs : List String} {names : List (String × String)}

theorem AtPositions.perm {eqs'} (h : AtPositions names attrs eqs) (hperm : eqs'.Perm eqs) :
    AtPositions names attrs eqs' :=
  fun e he => h e (hperm.mem_iff.mp he)

theorem getElem?_of_idxOf? {attr pos} (h : attrs.idxOf? attr = some pos) :
    attrs[pos]? = some attr := by
  obtain ⟨hlt, heq, -⟩ := idxOf?_eq_some_iff.mp h
  rw [getElem?_eq_getElem hlt]
  simpa using heq

variable {hashAttrs : List String} {rangeAttrs : List String}

theorem assignEqualities_ok {eqs hashEqs rangeEqs otherEqs}
    (h : assignEqualities hashAttrs rangeAttrs names eqs = .ok (hashEqs, rangeEqs, otherEqs)) :
    AtPositions names hashAttrs hashEqs ∧ AtPositions names rangeAttrs rangeEqs ∧
      (hashEqs.map (·.2) ++ rangeEqs.map (·.2) ++ otherEqs).Perm eqs := by
  induction eqs generalizing hashEqs rangeEqs otherEqs with
  | nil =>
    cases h
    exact ⟨by simp [AtPositions], by simp [AtPositions], .refl _⟩
  | cons e eqs ih =>
    obtain ⟨attr, hattr, h⟩ := unbind h
    obtain ⟨⟨hs, rs, os⟩, hrest, h⟩ := unbind h
    obtain ⟨hhash, hrange, hperm⟩ := ih hrest
    cases hpos : hashAttrs.idxOf? attr with
    | some pos =>
      rw [hpos] at h
      cases h
      refine ⟨?_, hrange, hperm.cons e⟩
      exact forall_mem_cons.mpr ⟨⟨attr, hattr, getElem?_of_idxOf? hpos⟩, hhash⟩
    | none =>
      rw [hpos] at h
      cases hrpos : rangeAttrs.idxOf? attr with
      | some pos =>
        rw [hrpos] at h
        cases h
        refine ⟨hhash, ?_, ?_⟩
        · exact forall_mem_cons.mpr ⟨⟨attr, hattr, getElem?_of_idxOf? hrpos⟩, hrange⟩
        · refine .trans ?_ (hperm.cons e)
          rw [append_assoc, append_assoc]
          exact perm_middle
      | none =>
        rw [hrpos] at h
        cases h
        exact ⟨hhash, hrange, perm_middle.trans (hperm.cons e)⟩

theorem hasPosition_of_covered (h : withoutEquality attrs eqs = []) {i} (hi : i < attrs.length) :
    hasPosition eqs i = true := by
  by_contra hnot
  have hmem : (attrs[i], i) ∈ attrs.zipIdx := by simp [mk_mem_zipIdx_iff_getElem?]
  have hmissing : attrs[i] ∈ withoutEquality attrs eqs :=
    mem_map.mpr ⟨(attrs[i], i), mem_filter.mpr ⟨hmem, by simpa using hnot⟩, rfl⟩
  rw [h] at hmissing
  cases hmissing

theorem forall₂_of_covered (hat : AtPositions names attrs eqs)
    (hsorted : eqs.Pairwise fun e f => e.1 ≤ f.1) (hrepeats : repeatsPosition eqs = false)
    (hcovered : withoutEquality attrs eqs = []) :
    List.Forall₂ (fun e attr => resolvePathAttr e.1 names = .ok attr) (eqs.map (·.2)) attrs := by
  have hrange : eqs.map (·.1) = range attrs.length := by
    refine eq_range_of_pairwise (pairwise_lt_of_not_repeats hsorted hrepeats) fun i => ?_
    constructor
    · intro hi
      obtain ⟨e, he, rfl⟩ := mem_map.mp hi
      obtain ⟨attr, -, hget⟩ := hat e he
      exact (List.getElem?_eq_some_iff.mp hget).1
    · intro hi
      obtain ⟨e, he, hpos⟩ := any_eq_true.mp (hasPosition_of_covered hcovered hi)
      exact mem_map.mpr ⟨e, he, by simpa using hpos⟩
  have hlength : (eqs.map (·.2)).length = attrs.length := by
    simpa using congrArg length hrange
  refine forall₂_iff_get.mpr ⟨hlength, fun i hi hi' => ?_⟩
  have hie : i < eqs.length := by simpa using hi
  obtain ⟨attr, hname, hget⟩ := hat eqs[i] (getElem_mem hie)
  have hpos : eqs[i].1 = i := by
    have := getElem_of_eq hrange (by simpa using hie)
    simpa using this
  rw [hpos, getElem?_eq_getElem hi', some.injEq] at hget
  simpa [hget] using hname

/-! ## Accepted conditions -/

variable {a : AssignedClauses}

theorem checkOnePerKey_ok (h : a.checkOnePerKey = .ok ()) :
    repeatsPosition a.hashEqs = false ∧ a.nonEqHashPos.any (hasPosition a.hashEqs) = false := by
  unfold checkOnePerKey at h
  split at h
  · cases h
  · rename_i hnot
    simp only [Bool.or_eq_true, not_or, Bool.not_eq_true] at hnot
    exact ⟨hnot.1.1.1, hnot.2⟩

theorem checkHashCovered_ok
    (h : a.checkHashCovered hashAttrs = .ok ()) : withoutEquality hashAttrs a.hashEqs = [] := by
  unfold checkHashCovered at h
  split at h
  · assumption
  · cases h

theorem checkKeyAttributes_ok (h : a.checkKeyAttributes hashAttrs rangeAttrs = .ok ()) :
    a.otherEqs = [] ∧ (a.nonEq.isSome → a.nonEqPos.isSome ∨ a.nonEqHashPos.isSome) := by
  unfold checkKeyAttributes at h
  split at h
  · cases h
  rename_i hnot
  simp only [Bool.or_eq_true, not_or, Bool.and_eq_true, not_and, Bool.not_eq_true] at hnot
  refine ⟨by simpa using hnot.1, fun hsome => ?_⟩
  by_cases hpos : a.nonEqPos.isNone = true
  · exact .inr (by simpa using hnot.2 ⟨hsome, hpos⟩)
  · exact .inl (by simpa [← isSome_iff_ne_none] using hpos)

namespace KeyCondition

section

variable (kc : KeyCondition)

def pkEqualities : List KeyEquality :=
  (kc.pkPath, kc.pkValue) :: kc.extraPkConditions

def sortConditions : List SortKeyCondition :=
  kc.skCondition.toList ++ kc.extraSkConditions.map KeyEquality.condition

def conditions : List SortKeyCondition :=
  kc.pkEqualities.map KeyEquality.condition ++ kc.sortConditions

theorem equalities_append_nonEquality :
    (kc.equalities.map KeyEquality.condition ++ kc.nonEquality.toList).Perm kc.conditions := by
  obtain ⟨pkPath, pkValue, extraPk, sk, extraSk⟩ := kc
  have hend (cond : SortKeyCondition) :
      (extraPk.map KeyEquality.condition ++ (extraSk.map KeyEquality.condition ++ [cond])).Perm
        (extraPk.map KeyEquality.condition ++ (cond :: extraSk.map KeyEquality.condition)) :=
    (perm_append_singleton cond _).append_left _
  have hother (cond : SortKeyCondition) (h : ∀ path value, cond ≠ .compare path .eq value) :
      equalities ⟨pkPath, pkValue, extraPk, some cond, extraSk⟩ =
          (pkPath, pkValue) :: extraPk ++ extraSk ∧
        nonEquality ⟨pkPath, pkValue, extraPk, some cond, extraSk⟩ = some cond := by
    unfold equalities nonEquality
    split
    · rename_i heq
      exact absurd (some.inj heq) (h _ _)
    · simp
  cases sk with
  | none => simp [equalities, nonEquality, conditions, pkEqualities, sortConditions]
  | some cond =>
    by_cases heq : ∃ path value, cond = .compare path .eq value
    · obtain ⟨path, value, rfl⟩ := heq
      simpa [equalities, nonEquality, conditions, pkEqualities, sortConditions,
        KeyEquality.condition] using hend (.compare path .eq value)
    · obtain ⟨heqs, hnon⟩ := hother cond fun path value h => heq ⟨path, value, h⟩
      rw [heqs, hnon]
      simpa [conditions, pkEqualities, sortConditions] using hend cond

theorem conditions_ofAssigned {a} (hhash : a.hashEqs ≠ []) :
    (kc.ofAssigned a).pkEqualities = a.hashEqs.map (·.2) ∧ (kc.ofAssigned a).sortConditions =
        a.nonEq.toList ++ (a.rangeEqs.map (·.2)).map KeyEquality.condition := by
  obtain ⟨first, rest, hcons⟩ := exists_cons_of_ne_nil hhash
  constructor
  · simp [ofAssigned, pkEqualities, hcons]
  · cases hnon : a.nonEq with
    | some cond => simp [ofAssigned, sortConditions, hnon]
    | none => cases hrange : a.rangeEqs <;> simp [ofAssigned, sortConditions, hnon, hrange]

end

end KeyCondition

variable {clauses : List WrittenClause} {kc : KeyCondition}

theorem classifyMulti_conditions (h : classifyMulti (clauses.map raw) = .ok kc) :
    kc.conditions.Perm (clauses.map condition) := by
  have hplaced := (equalityClauses_append_otherClauses clauses).map condition
  refine .trans ?_ hplaced
  obtain ⟨first, rest, heq, hkc⟩ := classifyMulti_ok h
  have hequality : ∀ c ∈ first :: rest, c.equality.condition = c.condition := by
    rw [← heq]
    exact fun c hc => (condition_of_isEquality (mem_filter.mp hc).2).symm
  have hmap {cs : List WrittenClause} (hcs : ∀ c ∈ cs, c ∈ rest) :
      (cs.map equality).map KeyEquality.condition = cs.map condition := by
    rw [List.map_map]
    exact map_congr_left fun c hc => hequality c (.tail _ (hcs c hc))
  have hfirst : KeyEquality.condition (first.equality.1, first.equality.2) = first.condition :=
    hequality first (by simp)
  rw [heq]
  rcases hkc with ⟨hother, rfl⟩ | ⟨c, hother, rfl⟩
  · have hlast : rest.dropLast.map condition ++
        (rest.getLast?.map condition).toList = rest.map condition := by
      cases hget : rest.getLast? with
      | none => simp [getLast?_eq_none_iff.mp hget]
      | some last =>
        nth_rewrite 2 [← dropLast_append_getLast? last hget]
        simp
    simp only [hother, append_nil, conditions, pkEqualities,
      sortConditions, map_cons, hfirst, map_nil, cons_append,
      hmap fun c hc => mem_of_mem_dropLast hc, hlast]
    exact .refl _
  · rw [hother, conditions, pkEqualities, sortConditions, map_cons, hfirst, hmap fun c hc => hc]
    simp

theorem assign_ok (h : kc.assign hashAttrs rangeAttrs names = .ok a) :
    AtPositions names hashAttrs a.hashEqs ∧ AtPositions names rangeAttrs a.rangeEqs ∧
      a.hashEqs.Pairwise (fun e f => e.1 ≤ f.1) ∧
      ((a.hashEqs.map (·.2) ++ a.rangeEqs.map (·.2) ++ a.otherEqs).map KeyEquality.condition ++
        a.nonEq.toList).Perm kc.conditions ∧
      ∀ cond, a.nonEq = some cond → ∃ attr, resolvePathAttr cond.path names = .ok attr ∧
        a.nonEqPos = rangeAttrs.idxOf? attr ∧ a.nonEqHashPos = hashAttrs.idxOf? attr := by
  obtain ⟨⟨hashEqs, rangeEqs, otherEqs⟩, heqs, h⟩ := unbind h
  obtain ⟨nonEqAttr, hnonEq, h⟩ := unbind h
  cases h
  obtain ⟨hhashAt, hrangeAt, hperm⟩ := assignEqualities_ok heqs
  have hsortHash : (sortByPosition hashEqs).Perm hashEqs := perm_insertionSort ..
  have hsortRange : (sortByPosition rangeEqs).Perm rangeEqs := perm_insertionSort ..
  refine ⟨hhashAt.perm hsortHash, hrangeAt.perm hsortRange, ?_, ?_, ?_⟩
  · have : Std.Total (fun e f : Nat × KeyEquality => e.1 ≤ f.1) := ⟨fun e f => Nat.le_total _ _⟩
    exact pairwise_insertionSort _ _
  · refine .trans ?_ kc.equalities_append_nonEquality
    refine (List.Perm.map _ (.trans ?_ hperm)).append_right _
    exact ((hsortHash.map _).append (hsortRange.map _)).append_right _
  · intro cond hcond
    simp only at hcond
    rw [nonEqualityAttr, hcond] at hnonEq
    obtain ⟨attr, hattr, rfl⟩ := map_eq_ok.mp hnonEq
    exact ⟨attr, hattr, rfl, rfl⟩

/-- A multi-attribute key condition that is accepted: every clause is there, the partition has one
equality for each HASH attribute, in order and of the right type, and the others are on RANGE
attributes. -/
theorem resolveMultipartWith_ok {kc' valueCheck} (hhash : hashAttrs ≠ [])
    (hmulti : ¬(hashAttrs.length ≤ 1 ∧ rangeAttrs.length ≤ 1))
    (hclassify : classifyMulti (clauses.map raw) = .ok kc)
    (hresolve : kc.resolveMultipartWith hashAttrs rangeAttrs names valueCheck = .ok kc') :
    kc'.conditions.Perm (clauses.map condition) ∧
      List.Forall₂ (fun e attr => resolvePathAttr e.1 names = .ok attr) kc'.pkEqualities hashAttrs ∧
      (∀ e ∈ kc'.pkEqualities, valueCheck e.1 e.2 = .ok ()) ∧
      ∀ cond ∈ kc'.sortConditions, ∃ attr ∈ rangeAttrs, resolvePathAttr cond.path names = .ok attr := by
  rw [resolveMultipartWith, if_neg hmulti] at hresolve
  obtain ⟨a, hassign, h⟩ := unbind hresolve
  obtain ⟨hone, h⟩ := check_then_eq_ok.mp h
  replace h := ok_of_check h
  obtain ⟨hcovered, h⟩ := check_then_eq_ok.mp h
  replace h := ok_of_check h
  obtain ⟨hvalues, h⟩ := check_then_eq_ok.mp h
  obtain ⟨hkeys, h⟩ := check_then_eq_ok.mp h
  cases h
  obtain ⟨hrepeats, hnotHash⟩ := checkOnePerKey_ok hone
  have hcovered := checkHashCovered_ok hcovered
  obtain ⟨hother, hnamed⟩ := checkKeyAttributes_ok hkeys
  obtain ⟨hhashAt, hrangeAt, hsorted, hperm, hnonEq⟩ := assign_ok hassign
  have hforall := forall₂_of_covered hhashAt hsorted hrepeats hcovered
  have hne : a.hashEqs ≠ [] := by
    rintro hnil
    rw [hnil] at hforall
    cases hforall
    exact hhash rfl
  obtain ⟨hpk, hsort⟩ := conditions_ofAssigned kc hne
  refine ⟨?_, hpk ▸ hforall, ?_, ?_⟩
  · refine .trans ?_ (classifyMulti_conditions hclassify)
    rw [conditions, hpk, hsort]
    rw [hother, append_nil, map_append, append_assoc] at hperm
    exact (perm_append_comm.append_left _).trans hperm
  · intro e he
    rw [hpk] at he
    refine forM_eq_ok.mp hvalues e ?_
    rw [map_append, append_assoc, append_assoc]
    exact mem_append_left _ he
  · intro cond hcond
    rw [hsort] at hcond
    rcases mem_append.mp hcond with hcond | hcond
    · have hnon : a.nonEq = some cond := by simpa using hcond
      obtain ⟨attr, hattr, hpos, hhashPos⟩ := hnonEq cond hnon
      -- a HASH attribute with this clause would carry its equality too
      have hnone : a.nonEqHashPos = none := by
        cases hp : a.nonEqHashPos with
        | none => rfl
        | some pos =>
          rw [hp] at hhashPos hnotHash
          have hget := getElem?_of_idxOf? hhashPos.symm
          rw [any_some,
            hasPosition_of_covered hcovered (List.getElem?_eq_some_iff.mp hget).1] at hnotHash
          cases hnotHash
      rcases hnamed (by rw [hnon]; rfl) with hsome | hsome
      · obtain ⟨pos, hp⟩ := isSome_iff_exists.mp hsome
        exact ⟨attr, mem_of_getElem? (getElem?_of_idxOf? (hpos.symm.trans hp)), hattr⟩
      · rw [hnone] at hsome
        cases hsome
    · obtain ⟨e, he, rfl⟩ := mem_map.mp hcond
      obtain ⟨⟨pos, _⟩, hmem, rfl⟩ := mem_map.mp he
      obtain ⟨attr, hattr, hget⟩ := hrangeAt _ hmem
      exact ⟨attr, mem_of_getElem? hget, hattr⟩

end ExtendDb
