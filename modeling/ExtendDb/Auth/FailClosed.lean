import ExtendDb.Auth.Policy

/-!
# Policy evaluation fails closed

An Allow never rests on a key that the context could not resolve: it stands under every context that
agrees with the given one on all other keys.
-/

namespace ExtendDb.Auth

open List ConditionContext

/-- The second context agrees with the first on every key that the first does not report as
unresolvable. -/
def ConditionContext.AgreesWith (context other : ConditionContext) : Prop :=
  ∀ key, context.isUnresolvable key = false →
    other.resolveKey key = context.resolveKey key ∧ other.isUnresolvable key = false ∧
    other.isMultivaluedKey key = context.isMultivaluedKey key ∧
    other.bareNegatedMatchesAbsentMultivaluedKey key =
      context.bareNegatedMatchesAbsentMultivaluedKey key

section

variable {texts : PolicyTexts} {context other : ConditionContext}

/-! ### Variables -/

variable (hagree : context.AgreesWith other)
include hagree

theorem resolve_eq_of_resolvable {name} (h : context.isUnresolvable name = false) (default) :
    resolve name default other = resolve name default context := by
  obtain ⟨hresolve, hother, hmulti, -⟩ := hagree name h
  unfold isUnresolvable at h hother
  rw [hresolve] at hother
  simp [resolve, hresolve, hmulti, h, hother]

theorem resolve_eq {name default} (h : resolve name default context ≠ .error .unresolvable) :
    resolve name default other = resolve name default context := by
  refine resolve_eq_of_resolvable hagree ?_ default
  by_contra hne
  have htrue : ((context.resolveKey name).isNone && context.isUnresolvableKey name) = true := by
    simpa [isUnresolvable] using hne
  exact h (by simp only [resolve, htrue, if_true])

variable {ps : List Part}

/-- The flag never turns back, and an absent key shows in whatever follows it. -/
theorem expandTokensFrom_agrees {tokens unresolvable} :
    (∀ result, expandTokensFrom texts context ps tokens unresolvable = .ok result →
      unresolvable = false ∧ expandTokensFrom texts other ps tokens unresolvable = .ok result) ∧
    (expandTokensFrom texts context ps tokens unresolvable = .error .absent →
      ∀ tokens' flag, expandTokensFrom texts other ps tokens' flag = .error .absent) := by
  induction ps generalizing tokens unresolvable with
  | nil =>
    cases unresolvable with
    | false => exact ⟨fun _ h => ⟨rfl, h⟩, fun h => by cases h⟩
    | true => exact ⟨fun _ h => (by cases h), fun h => by cases h⟩
  | cons part rest ih =>
    cases part with
    | text written | escape byte => exact ⟨ih.1, fun h _ _ => ih.2 h _ _⟩
    | key name default =>
      simp only [expandTokensFrom]
      cases hresolve : resolve name default context with
      | ok value =>
        rw [resolve_eq hagree (by rw [hresolve]; simp), hresolve]
        exact ⟨ih.1, fun h _ _ => ih.2 h _ _⟩
      | error missing =>
        cases missing with
        | absent =>
          rw [resolve_eq hagree (by rw [hresolve]; simp), hresolve]
          exact ⟨fun _ h => (by cases h), fun _ _ _ => rfl⟩
        | unresolvable =>
          refine ⟨fun _ h => (by cases (ih.1 _ h).1), fun h _ _ => ?_⟩
          -- whatever the other context has for this key, the absent one follows
          cases resolve name default other with
          | ok value => exact ih.2 h _ _
          | error missing' =>
            cases missing' with
            | absent => rfl
            | unresolvable => exact ih.2 h _ _

variable {expand : Bool} {resourceArn : String}

theorem expandTokens_eq {pattern} (h : expandTokens texts pattern context ≠ .error .unresolvable) :
    expandTokens texts pattern other = expandTokens texts pattern context := by
  cases hexpand : expandTokens texts pattern context with
  | ok tokens => exact ((expandTokensFrom_agrees hagree).1 _ hexpand).2
  | error missing =>
    cases missing with
    | absent => exact (expandTokensFrom_agrees hagree).2 hexpand _ _
    | unresolvable => exact absurd hexpand h

theorem resourcePattern_eq (resourceArn) {pattern}
    (hknown : resourcePatternIsUnresolvable texts pattern expand context = false) :
    resourcePatternMatches texts pattern resourceArn expand other =
      resourcePatternMatches texts pattern resourceArn expand context ∧
    resourcePatternIsUnresolvable texts pattern expand other = false := by
  by_cases hwritten : (expand && containsVariable pattern) = true
  · have hexpand := @expandTokens_eq texts _ _ hagree pattern fun h => by
      simp [resourcePatternIsUnresolvable, hwritten, h] at hknown
    simp only [resourcePatternMatches, resourcePatternIsUnresolvable, hexpand, true_and]
    exact hknown
  · cases expand <;> cases hvariable : containsVariable pattern <;>
      simp_all [resourcePatternMatches, resourcePatternIsUnresolvable]

omit hagree in
theorem resourcePattern_known_of_matches {pattern}
    (h : resourcePatternMatches texts pattern resourceArn expand context = true) :
    resourcePatternIsUnresolvable texts pattern expand context = false := by
  cases hexpand : expandTokens texts pattern context <;> cases expand <;>
    simp_all [resourcePatternMatches, resourcePatternIsUnresolvable]

/-! ### Conditions -/

theorem expandConditionFrom_eq
    (h : ∀ name default, .key name default ∈ ps → context.isUnresolvable name = false) (text tokens) :
    expandConditionFrom texts other ps text tokens =
      expandConditionFrom texts context ps text tokens := by
  induction ps generalizing text tokens with
  | nil => rfl
  | cons part rest ih =>
    have hrest := ih fun name default hmem => h name default (.tail _ hmem)
    cases part with
    | text written | escape byte => exact hrest _ _
    | key name default =>
      unfold expandConditionFrom
      rw [resolve_eq_of_resolvable hagree (h name default (.head _))]
      cases resolve name default context with
      | ok value => exact hrest _ _
      | error missing => rfl

theorem expandConditionValue_eq {value}
    (h : expand = true → (variableKeyNames texts value).any context.isUnresolvable = false) :
    expandConditionValue texts value expand other =
      expandConditionValue texts value expand context := by
  unfold expandConditionValue
  split
  · rfl
  rename_i hwritten
  have hexpand : expand = true := by
    cases expand <;> simp_all
  refine expandConditionFrom_eq hagree (fun name default hmem => ?_) "" []
  have hname : name ∈ variableKeyNames texts value :=
    mem_filterMap.mpr ⟨_, hmem, rfl⟩
  have hnone := h hexpand
  rw [any_eq_false] at hnone
  exact Bool.eq_false_iff.mpr (hnone name hname)

variable {version2012 : Bool} {condition : Condition}

theorem evaluateConditionWith_eq (hkey : context.isUnresolvable condition.key = false)
    (hvalues : expandsVariables condition.operator version2012 = true →
      readsUnresolvableVariable texts condition context = false) :
    evaluateConditionWith texts condition version2012 other =
      evaluateConditionWith texts condition version2012 context := by
  obtain ⟨hresolve, -, hmulti, hbare⟩ := hagree condition.key hkey
  have hexpanded : condition.values.map (expandConditionValue texts ·
      (expandsVariables condition.operator version2012) other) =
      condition.values.map (expandConditionValue texts ·
        (expandsVariables condition.operator version2012) context) := by
    refine map_congr_left fun value hvalue => expandConditionValue_eq hagree fun hexpand => ?_
    have hnone := hvalues hexpand
    rw [readsUnresolvableVariable, any_eq_false] at hnone
    exact Bool.eq_false_iff.mpr (hnone value hvalue)
  simp [evaluateConditionWith, hexpanded, hresolve, hmulti, hbare]

theorem evaluateConditionMatch_eq
    (h : evaluateConditionMatch texts condition version2012 context ≠ .unresolvable) :
    evaluateConditionMatch texts condition version2012 other =
      evaluateConditionMatch texts condition version2012 context := by
  unfold evaluateConditionMatch at h ⊢
  split at h
  · exact absurd rfl h
  rename_i hresolvable
  have hhere := hresolvable
  rw [Bool.or_eq_true, not_or, Bool.not_eq_true, Bool.and_eq_true, not_and,
    Bool.not_eq_true] at hresolvable
  obtain ⟨hkey, hvalues⟩ := hresolvable
  have hother : (other.isUnresolvable condition.key ||
      (expandsVariables condition.operator version2012 &&
        readsUnresolvableVariable texts condition other)) = false := by
    rw [Bool.or_eq_false_iff]
    refine ⟨(hagree condition.key hkey).2.1, ?_⟩
    by_cases hexpand : expandsVariables condition.operator version2012 = true
    · rw [hexpand, Bool.true_and, readsUnresolvableVariable, any_eq_false]
      intro value hvalue
      rw [Bool.not_eq_true, any_eq_false]
      intro name hname
      have hnone := hvalues hexpand
      rw [readsUnresolvableVariable, any_eq_false] at hnone
      have hvalue' := hnone value hvalue
      rw [Bool.not_eq_true, any_eq_false] at hvalue'
      rw [Bool.not_eq_true]
      exact (hagree name (Bool.eq_false_iff.mpr (hvalue' name hname))).2.1
    · rw [Bool.not_eq_true] at hexpand
      rw [hexpand, Bool.false_and]
  rw [if_neg (by rw [hother]; exact Bool.false_ne_true), if_neg hhere,
    evaluateConditionWith_eq hagree hkey hvalues]

variable {conditions : List Condition}

theorem evaluateConditionsFrom_agrees {flag} :
    (evaluateConditionsFrom texts version2012 context conditions flag = .noMatch →
      ∀ flag', evaluateConditionsFrom texts version2012 other conditions flag' = .noMatch) ∧
    (evaluateConditionsFrom texts version2012 context conditions flag = .isMatch →
      flag = false ∧
        evaluateConditionsFrom texts version2012 other conditions false = .isMatch) := by
  induction conditions generalizing flag with
  | nil =>
    cases flag with
    | false => exact ⟨fun h => (by cases h), fun _ => ⟨rfl, rfl⟩⟩
    | true => exact ⟨fun h => (by cases h), fun h => by cases h⟩
  | cons condition rest ih =>
    simp only [evaluateConditionsFrom]
    cases hmatch : evaluateConditionMatch texts condition version2012 context with
    | isMatch =>
      rw [evaluateConditionMatch_eq hagree (by rw [hmatch]; simp), hmatch]
      exact ih
    | noMatch =>
      rw [evaluateConditionMatch_eq hagree (by rw [hmatch]; simp), hmatch]
      exact ⟨fun _ _ => rfl, fun h => by cases h⟩
    | unresolvable =>
      refine ⟨fun h _ => ?_, fun h => by cases (ih.2 h).1⟩
      cases evaluateConditionMatch texts condition version2012 other with
      | isMatch | unresolvable => exact ih.1 h _
      | noMatch => rfl

/-! ### Statements -/

variable {policy : PolicyDocument} {statement : Statement}

theorem allowGrants_of_agrees {action}
    (h : allowGrants texts action resourceArn context policy statement = true) :
    allowGrants texts action resourceArn other policy statement = true := by
  unfold allowGrants at h ⊢
  simp only [Bool.and_eq_true, decide_eq_true_eq] at h ⊢
  obtain ⟨⟨⟨heffect, haction⟩, hresource⟩, hgrant⟩ := h
  refine ⟨⟨⟨heffect, haction⟩, ?_⟩, ?_⟩
  · unfold resourceMatches at hresource ⊢
    cases hmatch : statement.resourceMatch with
    | resources patterns =>
      simp only [hmatch, heffect] at hresource ⊢
      simp only [reduceCtorEq, decide_false, Bool.false_and, Bool.or_false,
        any_eq_true] at hresource ⊢
      obtain ⟨pattern, hpattern, hmatches⟩ := hresource
      exact ⟨pattern, hpattern,
        (resourcePattern_eq hagree _ (resourcePattern_known_of_matches hmatches)).1.trans hmatches⟩
    | notResources patterns =>
      simp only [hmatch, heffect] at hresource ⊢
      simp only [reduceCtorEq, decide_false, Bool.false_or, Bool.and_eq_true,
        Bool.not_eq_true', any_eq_false, Bool.not_eq_true] at hresource ⊢
      have hsame := fun pattern hpattern => resourcePattern_eq hagree resourceArn
        (hresource.2 pattern hpattern)
      exact ⟨fun pattern hpattern => (hsame pattern hpattern).1.trans (hresource.1 pattern hpattern),
        fun pattern hpattern => (hsame pattern hpattern).2⟩
  · unfold allowConditionsGrant statementConditions evaluateStatementConditions at hgrant ⊢
    rw [decide_eq_true_eq] at hgrant ⊢
    exact ((evaluateConditionsFrom_agrees hagree).2 hgrant).2

theorem denyApplies_eq_false_of_agrees {action}
    (h : denyApplies texts action resourceArn context policy statement = false) :
    denyApplies texts action resourceArn other policy statement = false := by
  rw [← Bool.not_eq_true] at h ⊢
  intro happlies
  apply h
  unfold denyApplies at happlies ⊢
  simp only [Bool.and_eq_true] at happlies ⊢
  obtain ⟨⟨⟨heffect, haction⟩, hresource⟩, hconditions⟩ := happlies
  refine ⟨⟨⟨heffect, haction⟩, ?_⟩, ?_⟩
  · unfold resourceMatches at hresource ⊢
    cases hmatch : statement.resourceMatch with
    | resources patterns =>
      simp only [hmatch, heffect, Bool.true_and, Bool.or_eq_true, any_eq_true] at hresource ⊢
      by_contra hnone
      rw [not_or, not_exists, not_exists] at hnone
      -- no pattern matches and none is unresolvable, so none matches under the other context
      have hsame := fun pattern hpattern => resourcePattern_eq hagree resourceArn
        (Bool.eq_false_iff.mpr fun heq => hnone.2 pattern ⟨hpattern, heq⟩)
      rcases hresource with ⟨pattern, hpattern, hmatches⟩ | ⟨pattern, hpattern, hunresolvable⟩
      · exact hnone.1 pattern ⟨hpattern, (hsame pattern hpattern).1.symm.trans hmatches⟩
      · cases (hsame pattern hpattern).2.symm.trans hunresolvable
    | notResources patterns =>
      simp only [hmatch, heffect, Bool.true_or, Bool.and_true, Bool.not_eq_true', any_eq_false]
        at hresource ⊢
      exact fun pattern hpattern hmatches => hresource pattern hpattern
        ((resourcePattern_eq hagree _ (resourcePattern_known_of_matches hmatches)).1.trans hmatches)
  · unfold denyConditionsApply statementConditions evaluateStatementConditions at hconditions ⊢
    rw [decide_eq_true_eq] at hconditions ⊢
    exact fun hnoMatch => hconditions ((evaluateConditionsFrom_agrees hagree).1 hnoMatch _)

end

/-- An Allow stands under every context that agrees on the keys the first one could resolve. -/
theorem allow_fails_closed (texts : PolicyTexts) (identityPolicies : List PolicyDocument)
    (permissionsBoundary sessionPolicy : Option PolicyDocument) (action resourceArn : String)
    (context other : ConditionContext) (hagree : context.AgreesWith other)
    (h : evaluateWith texts identityPolicies permissionsBoundary sessionPolicy action resourceArn
      context = .allow) :
    evaluateWith texts identityPolicies permissionsBoundary sessionPolicy action resourceArn
      other = .allow := by
  have hgrants {policy : PolicyDocument}
      (hgrant : policy.statements.any (allowGrants texts action resourceArn context policy) = true) :
      policy.statements.any (allowGrants texts action resourceArn other policy) = true := by
    rw [any_eq_true] at hgrant ⊢
    obtain ⟨statement, hstatement, hgrant⟩ := hgrant
    exact ⟨statement, hstatement, allowGrants_of_agrees hagree hgrant⟩
  have hoptional {policy : Option PolicyDocument} (hall : policy.all (fun policy =>
        policy.statements.any (allowGrants texts action resourceArn context policy)) = true) :
      policy.all (fun policy =>
        policy.statements.any (allowGrants texts action resourceArn other policy)) = true := by
    cases policy with
    | none => rfl
    | some policy => exact hgrants hall
  unfold evaluateWith at h ⊢
  simp only at h ⊢
  split at h
  · cases h
  rename_i hdeny
  split at h
  · cases h
  rename_i hboundary
  split at h
  · cases h
  rename_i hsession
  split at h
  · rename_i hidentity
    -- the same statements grant, and no deny that was silent speaks up
    rw [Bool.not_eq_true', Bool.not_eq_false] at hboundary hsession
    rw [if_neg, if_neg, if_neg, if_pos]
    · rw [any_eq_true] at hidentity ⊢
      obtain ⟨policy, hpolicy, hgrant⟩ := hidentity
      exact ⟨policy, hpolicy, hgrants hgrant⟩
    · rw [hoptional hsession]
      exact Bool.false_ne_true
    · rw [hoptional hboundary]
      exact Bool.false_ne_true
    · rw [Bool.not_eq_true, any_eq_false] at hdeny ⊢
      intro policy hpolicy
      have hnone := hdeny policy hpolicy
      rw [Bool.not_eq_true, any_eq_false] at hnone ⊢
      intro statement hstatement
      rw [Bool.not_eq_true]
      exact denyApplies_eq_false_of_agrees hagree
        (Bool.eq_false_iff.mpr (hnone statement hstatement))
  · cases h

/-! ### An instance -/

def writtenTexts : PolicyTexts where
  parts value := [.text value]
  encodeUtf16 value := value.toList.map Char.toNat
  wildcardMatchIgnoreCase pattern value := pattern == value
  arnMatch pattern value := pattern == value
  arnMatchTokens _ _ := false
  isArn _ := true
  compareSingle _ cv pv := pv.text == some cv

def ambiguousTagContext : ConditionContext where
  resolveKey key := if key = "aws:username" then some ["alice"] else none
  isMultivaluedKey _ := false
  isUnresolvableKey key := key = "aws:RequestTag/team"
  bareNegatedMatchesAbsentMultivaluedKey _ := false

def resolvedTagContext : ConditionContext where
  resolveKey key := if key = "aws:username" then some ["alice"]
    else if key = "aws:RequestTag/team" then some ["blue"] else none
  isMultivaluedKey _ := false
  isUnresolvableKey _ := false
  bareNegatedMatchesAbsentMultivaluedKey _ := false

def userPolicy : PolicyDocument where
  version := some "2012-10-17"
  statements := [⟨.allow, .actions ["GetItem"], .resources ["table"],
      [⟨.stringEquals, "aws:RequestTag/team", ["blue"]⟩]⟩,
    ⟨.allow, .actions ["GetItem"], .resources ["table"],
      [⟨.stringEquals, "aws:username", ["alice"]⟩]⟩,
    ⟨.deny, .actions ["GetItem"], .resources ["table"],
      [⟨.stringEquals, "aws:RequestTag/team", ["red"]⟩, ⟨.stringEquals, "aws:username", ["bob"]⟩]⟩]

theorem ambiguousTagContext_agrees : ambiguousTagContext.AgreesWith resolvedTagContext := by
  intro key hkey
  by_cases htag : key = "aws:RequestTag/team"
  · subst htag
    exact absurd hkey (by decide)
  · refine ⟨?_, ?_, rfl, rfl⟩
    · simp [resolvedTagContext, ambiguousTagContext, htag]
    · simp [isUnresolvable, resolvedTagContext]

theorem allow_fails_closed_user :
    evaluateWith writtenTexts [userPolicy] none none "GetItem" "table" ambiguousTagContext = .allow ∧
    evaluateWith writtenTexts [userPolicy] none none "GetItem" "table" resolvedTagContext =
      .allow := by
  have hallow : evaluateWith writtenTexts [userPolicy] none none "GetItem" "table"
      ambiguousTagContext = .allow := by decide
  exact ⟨hallow, allow_fails_closed writtenTexts [userPolicy] none none "GetItem" "table"
    ambiguousTagContext resolvedTagContext ambiguousTagContext_agrees hallow⟩

end ExtendDb.Auth
