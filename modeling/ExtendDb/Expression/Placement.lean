import ExtendDb.Expression.ClauseMeaning

/-!
# Where the clauses of a single-attribute key condition go

On a table with one HASH attribute the classifier takes one equality for the partition key, at most
one clause for the sort key, and keeps further equalities with the partition key.
-/

namespace ExtendDb

open Fallible List Option WrittenClause KeyCondition

/-! ## Attributes -/

theorem stripPrefix_hash (name) : stripPrefix '#' ("#" ++ name) = some name := by
  have hlist : ("#" ++ name).toList = '#' :: name.toList := by simp
  simp [stripPrefix]

theorem stripPrefix_of_head_ne {name} (h : name.toList.head? ≠ some '#') :
    stripPrefix '#' name = none := by
  unfold stripPrefix
  split
  · rename_i heq
    rw [heq, head?_cons, ne_eq, some.injEq] at h
    simp [h]
  · rfl

variable {maps : ExpressionMaps}

theorem resolvePathAttr_iff {attr : AttrRef} (hplain : attr.token.PlainIdent) {name} :
    resolvePathAttr attr.path maps.names = .ok name ↔ attr.resolve maps = some name := by
  cases attr with
  | ident bare =>
    have hhead : bare.toList.head? ≠ some '#' := hplain bare rfl
    simp [resolvePathAttr, AttrRef.path, AttrRef.resolve, stripPrefix_of_head_ne hhead]
  | nameRef ref =>
    simp only [resolvePathAttr, AttrRef.path, AttrRef.resolve, head?_cons, stripPrefix_hash]
    cases OrdMap.get? maps.names ref <;> simp

/-! ## Spelling -/

theorem WrittenClause.attr_token_mem (c : WrittenClause) : c.attr.token ∈ c.tokens := by
  cases c <;> simp [tokens, attr]

variable {tokens : List Token}

theorem SpellsAnd.attr_token_mem {clauses} (h : SpellsAnd clauses tokens) :
    ∀ c ∈ clauses, c.attr.token ∈ tokens := by
  have hclause {c : WrittenClause} {ts : List Token} (h : SpellsClause c ts) :
      c.attr.token ∈ ts := by
    have hmem := c.attr_token_mem
    cases h with
    | bare => exact hmem
    | parens => simp [hmem]
  induction h with
  | single h => simpa using hclause h
  | and h _ ih =>
    intro c hc
    rcases mem_cons.mp hc with rfl | hc
    · exact mem_append_left _ (hclause h)
    · exact mem_append_right _ (.tail _ (ih c hc))

theorem Spells.attr_token_mem {clauses} (h : Spells clauses tokens) :
    ∀ c ∈ clauses, c.attr.token ∈ tokens := by
  rcases h with h | ⟨inner, rfl, h⟩
  · exact h.attr_token_mem
  · intro c hc
    simp [h.attr_token_mem c hc]

/-! ## Equalities -/

namespace WrittenClause

def value : WrittenClause → String
  | .compare _ _ value | .reversed value _ _ | .between _ value _ | .beginsWith _ _ value => value

def equality (c : WrittenClause) : KeyEquality := (c.attr.path, .placeholder c.value)

variable {c : WrittenClause}

theorem raw_of_isEquality (h : c.isEquality = true) : c.raw = .eq c.equality.1 c.equality.2 := by
  cases c with
  | compare attr op value =>
    have hop : op = .eq := by simpa [isEquality] using h
    rw [raw, rawCompare, if_pos hop]
    rfl
  | reversed value op attr =>
    have hop : op = .eq := by simpa [isEquality] using h
    rw [hop]
    rfl
  | between | beginsWith => simp [isEquality] at h

theorem condition_of_isEquality (h : c.isEquality = true) : c.condition = c.equality.condition := by
  rw [condition, raw_of_isEquality h]
  rfl

theorem condition_ne_eq (h : c.isEquality = false) (path value) :
    c.condition ≠ .compare path .eq value := by
  cases c with
  | compare attr op value =>
    have hop : op ≠ .eq := by simpa [isEquality] using h
    simp [hop]
  | reversed value op attr =>
    have hop : reverseComparator op ≠ .eq := by
      cases op <;> simp [isEquality, reverseComparator] at h ⊢
    simp [hop]
  | between | beginsWith => simp

theorem raw_ne_eq (h : c.isEquality = false) (path value) : c.raw ≠ .eq path value :=
  fun heq => condition_ne_eq h path value (by rw [condition, heq]; rfl)

end WrittenClause

def equalityClauses (clauses : List WrittenClause) : List WrittenClause :=
  clauses.filter (·.isEquality)

def otherClauses (clauses : List WrittenClause) : List WrittenClause :=
  clauses.filter (!·.isEquality)

theorem equalityClauses_append_otherClauses (clauses) :
    (equalityClauses clauses ++ otherClauses clauses).Perm clauses :=
  filter_append_perm _ clauses

theorem splitClauses_ok {clauses before eqs nonEq}
    (h : splitClauses (clauses.map raw) before = .ok (eqs, nonEq)) :
    eqs = (equalityClauses clauses).map equality ∧
      nonEq.toList = before.toList ++ (otherClauses clauses).map condition := by
  induction clauses generalizing before eqs with
  | nil =>
    cases h
    simp [equalityClauses, otherClauses]
  | cons c clauses ih =>
    rw [map_cons] at h
    cases hc : c.isEquality with
    | true =>
      rw [raw_of_isEquality hc] at h
      obtain ⟨⟨more, _⟩, hmore, h⟩ := unbind h
      cases h
      obtain ⟨rfl, hnon⟩ := ih hmore
      exact ⟨by simp [equalityClauses, hc], by simpa [otherClauses, hc] using hnon⟩
    | false =>
      have hstep : splitClauses (c.raw :: clauses.map raw) before = if before.isSome then
            .error (keyConditionErr "at most one non-equality condition is allowed")
          else splitClauses (clauses.map raw) (some c.condition) := by
        have hne := raw_ne_eq hc
        rw [condition]
        cases hraw : c.raw with
        | eq path value => exact absurd hraw (hne path value)
        | _ => rfl
      rw [hstep] at h
      split at h
      · cases h
      rename_i hbefore
      obtain ⟨rfl, hnon⟩ := ih h
      have hnone : before = none := by simpa using hbefore
      refine ⟨by simp [equalityClauses, hc], ?_⟩
      rw [hnon, hnone]
      simp [otherClauses, hc]

variable {kc : KeyCondition}

theorem classifyMulti_single {a} (h : classifySingle a = .ok kc) : classifyMulti [a] = .ok kc := by
  cases a <;> first | exact h | cases h

theorem classifyMulti_pair {a b} (h : classifyPair a b = .ok kc) :
    classifyMulti [a, b] = .ok kc := by
  cases a <;> cases b <;> first | exact h | cases h

theorem parseKeyCondition_ok (h : parseKeyCondition tokens = .ok kc) :
    ∃ clauses, Spells clauses tokens ∧ classifyMulti (clauses.map raw) = .ok kc := by
  obtain ⟨raws, hraws, h⟩ := unbind h
  obtain ⟨clauses, rfl, hspells⟩ := parseClauses_ok hraws
  refine ⟨clauses, hspells, ?_⟩
  split at h
  · rename_i heq
    rw [heq]
    exact classifyMulti_single h
  · rename_i heq
    rw [heq]
    exact classifyMulti_pair h
  · exact h

/-! ## Placement -/

/-- The clause taken for the partition key, the equalities kept with it and the clause applied to
the sort key. -/
structure Placement where
  pk : WrittenClause
  surplus : List WrittenClause
  sk : Option WrittenClause

/-- Where the clauses go on a table whose HASH attribute is `hash`: the first equality is the
partition key's.  Without a clause of another kind the last equality is the sort key's, and the two
change places if the first does not name `hash`. -/
def placement (maps : ExpressionMaps) (hash : String) (clauses : List WrittenClause) :
    Option Placement :=
  match equalityClauses clauses, otherClauses clauses with
  | first :: rest, [] =>
    match rest.getLast? with
    | none => some ⟨first, [], none⟩
    | some last =>
      if first.attr.resolve maps = some hash then some ⟨first, rest.dropLast, some last⟩
      else some ⟨last, rest.dropLast, some first⟩
  | first :: rest, [c] => some ⟨first, rest, some c⟩
  | _, _ => none

namespace Placement

def clauses (p : Placement) : List WrittenClause := p.pk :: p.surplus ++ p.sk.toList

def keyCondition (p : Placement) : KeyCondition where
  pkPath := p.pk.attr.path
  pkValue := .placeholder p.pk.value
  extraPkConditions := p.surplus.map equality
  skCondition := p.sk.map condition
  extraSkConditions := []

end Placement

theorem classifyMulti_ok {clauses} (h : classifyMulti (clauses.map raw) = .ok kc) :
    ∃ first rest, equalityClauses clauses = first :: rest ∧ ((otherClauses clauses = [] ∧
          kc = ⟨first.equality.1, first.equality.2, rest.dropLast.map equality,
            rest.getLast?.map condition, []⟩) ∨
        ∃ c, otherClauses clauses = [c] ∧
          kc = ⟨first.equality.1, first.equality.2, rest.map equality, some c.condition, []⟩) := by
  obtain ⟨⟨eqs, nonEq⟩, hsplit, h⟩ := unbind h
  obtain ⟨rfl, hnon⟩ := splitClauses_ok hsplit
  have hequalities : ∀ c ∈ equalityClauses clauses, c.isEquality = true :=
    fun c hc => (mem_filter.mp hc).2
  cases heq : equalityClauses clauses with
  | nil =>
    rw [heq] at h
    cases h
  | cons first rest =>
    refine ⟨first, rest, rfl, ?_⟩
    rw [heq] at h hequalities
    cases nonEq with
    | some sk =>
      cases h
      right
      obtain ⟨c, hc, rfl⟩ := map_eq_singleton_iff.mp hnon.symm
      exact ⟨c, hc, rfl⟩
    | none =>
      cases h
      left
      refine ⟨by simpa using hnon, ?_⟩
      -- the last clause is an equality, so its condition is that of the equality
      rw [map_dropLast, getLast?_map]
      congr 1
      cases hlast : rest.getLast? with
      | none => rfl
      | some last =>
        have hmem := mem_cons_of_mem first (mem_of_getLast? hlast)
        exact congrArg some (condition_of_isEquality (hequalities _ hmem)).symm

theorem swap_ends_perm {α : Type} (a b : α) (mid) : (a :: mid ++ [b]).Perm (b :: (mid ++ [a])) :=
  ((perm_append_singleton b mid).cons a).trans
    ((List.Perm.swap b a mid).trans ((perm_append_singleton a mid).symm.cons b))

variable {hash : String}

theorem Placement.clauses_perm {clauses p} (h : placement maps hash clauses = some p) :
    p.clauses.Perm clauses := by
  refine .trans ?_ (equalityClauses_append_otherClauses clauses)
  unfold placement at h
  split at h
  · rename_i first rest heq hother
    rw [heq, hother, append_nil]
    cases hlast : rest.getLast? with
    | none =>
      rw [hlast] at h
      cases h
      rw [getLast?_eq_none_iff.mp hlast]
      exact .refl _
    | some last =>
      rw [hlast] at h
      have hrest : rest = rest.dropLast ++ [last] :=
        (dropLast_append_getLast? last hlast).symm
      simp only at h
      split at h
      · cases h
        nth_rewrite 2 [hrest]
        exact .refl _
      · cases h
        nth_rewrite 2 [hrest]
        exact swap_ends_perm last first rest.dropLast
  · rename_i first rest c heq hother
    cases h
    rw [heq, hother]
    exact .refl _
  · cases h

theorem KeyCondition.resolvePkSk_of_ne
    (h : ∀ path value, kc.skCondition ≠ some (.compare path .eq value)) (pkAttr names) :
    kc.resolvePkSk pkAttr names = .ok kc := by
  unfold resolvePkSk
  split
  · rename_i heq
    exact absurd heq (h _ _)
  · rfl

variable {kc' : KeyCondition}

theorem KeyCondition.resolvePkSk_of_eq {attr : AttrRef} (hplain : attr.token.PlainIdent)
    {pkValue skValue skPath extra}
    (h : resolvePkSk ⟨attr.path, pkValue, extra, some (.compare skPath .eq skValue), []⟩ hash
      maps.names = .ok kc') :
    kc' = if attr.resolve maps = some hash then
        ⟨attr.path, pkValue, extra, some (.compare skPath .eq skValue), []⟩
      else ⟨skPath, skValue, extra, some (.compare attr.path .eq pkValue), []⟩ := by
  have hhead : ∃ name, attr.path.head? = some (.attr name) := by cases attr <;> exact ⟨_, rfl⟩
  obtain ⟨bare, hhead⟩ := hhead
  simp only [resolvePkSk, hhead] at h
  obtain ⟨pkName, hname, h⟩ := unbind h
  rw [resolvePathAttr_iff hplain] at hname
  split at h <;> cases h <;> simp [*]

theorem resolvePkSk_ok {clauses : List WrittenClause}
    (hplain : ∀ c ∈ clauses, c.attr.token.PlainIdent)
    (hclassify : classifyMulti (clauses.map raw) = .ok kc)
    (hresolve : kc.resolvePkSk hash maps.names = .ok kc') :
    ∃ p, placement maps hash clauses = some p ∧ kc' = p.keyCondition := by
  obtain ⟨first, rest, heq, hkc⟩ := classifyMulti_ok hclassify
  have hequality : ∀ c ∈ first :: rest, c.isEquality = true ∧ c ∈ clauses := by
    rw [← heq]
    exact fun c hc => ⟨(mem_filter.mp hc).2, (mem_filter.mp hc).1⟩
  obtain ⟨hfirst, hmem⟩ := hequality first (by simp)
  rcases hkc with ⟨hother, rfl⟩ | ⟨c, hother, rfl⟩
  · cases hlast : rest.getLast? with
    | none =>
      rw [resolvePkSk_of_ne (by simp [hlast])] at hresolve
      cases hresolve
      refine ⟨⟨first, [], none⟩, by simp [placement, heq, hother, hlast], ?_⟩
      simp [getLast?_eq_none_iff.mp hlast, Placement.keyCondition, equality]
    | some last =>
      obtain ⟨hlastEq, -⟩ :=
        hequality last (mem_cons_of_mem first (mem_of_getLast? hlast))
      rw [hlast, map_some, condition_of_isEquality hlastEq] at hresolve
      rw [resolvePkSk_of_eq (hplain first hmem) hresolve]
      split
      · rename_i hnames
        refine ⟨⟨first, rest.dropLast, some last⟩,
          by simp [placement, heq, hother, hlast, hnames], ?_⟩
        rw [Placement.keyCondition, map_some, condition_of_isEquality hlastEq]
        rfl
      · rename_i hnames
        refine ⟨⟨last, rest.dropLast, some first⟩,
          by simp [placement, heq, hother, hlast, hnames], ?_⟩
        rw [Placement.keyCondition, map_some, condition_of_isEquality hfirst]
        rfl
  · have hc : c.isEquality = false := by
      have := (mem_filter.mp (show c ∈ otherClauses clauses by simp [hother])).2
      simpa using this
    rw [resolvePkSk_of_ne
      (fun path value h => c.condition_ne_eq hc path value (some.inj h))] at hresolve
    cases hresolve
    exact ⟨⟨first, rest, some c⟩, by simp [placement, heq, hother], rfl⟩

end ExtendDb
