import ExtendDb.Theory.DecimalText
import ExtendDb.Expression.Resolver
import ExtendDb.Expression.Tokenizer

/-!
# Clauses of a `KeyConditionExpression`

The parser from the token stream to the AND-ed clauses, before any of them is read as the partition
or the sort key condition.  A parser function takes the tokens that are left and returns what it
read with the tokens behind it.
-/

namespace ExtendDb

open DecimalText Fallible

def keyConditionErr (msg : String) : DynamoDbError :=
  .validationException ("Invalid KeyConditionExpression: " ++ msg)

def expressionErr (msg : String) : DynamoDbError :=
  .validationException ("Invalid expression: " ++ msg)

/-! ## Shared parsing utilities -/

def parseUsize (s : String) : Option Nat :=
  let ds := match s.toList with
    | '+' :: ds => ds
    | ds => ds
  if ds.isEmpty || !ds.all Char.isDigit then none
  else (some (Nat.ofDigitChars 10 ds 0)).filter (· < 2 ^ 64)

def expectToken (expected : Token) (label context : String) : List Token → Result (List Token)
  | token :: rest =>
    if token = expected then .ok rest
    else .error (.validationException ("Invalid " ++ context ++ ": expected '" ++ label ++ "'"))
  | [] => .error (.validationException ("Invalid " ++ context ++ ": expected '" ++ label ++ "'"))

def parsePathRest : List Token → Result (List PathElement × List Token)
  | .dot :: .ident name :: rest => do
    let (elements, rest) ← parsePathRest rest
    pure (.attr name :: elements, rest)
  | .dot :: .nameRef name :: rest => do
    let (elements, rest) ← parsePathRest rest
    pure (.attr ("#" ++ name) :: elements, rest)
  | .dot :: _ => .error (expressionErr "expected attribute name after '.'")
  | .lBracket :: .ident idx :: rest =>
    match parseUsize idx with
    | none => .error (expressionErr "expected numeric index in brackets")
    | some n =>
      match rest with
      | .rBracket :: rest => do
        let (elements, rest) ← parsePathRest rest
        pure (.index n :: elements, rest)
      | _ => .error (.validationException "Invalid expression: expected ']'")
  | .lBracket :: _ => .error (expressionErr "expected numeric index in brackets")
  | rest => .ok ([], rest)

def parsePath : List Token → Result (List PathElement × List Token)
  | .ident name :: rest => do
    let (elements, rest) ← parsePathRest rest
    pure (.attr name :: elements, rest)
  | .nameRef name :: rest => do
    let (elements, rest) ← parsePathRest rest
    pure (.attr ("#" ++ name) :: elements, rest)
  | _ => .error (expressionErr "expected attribute name")

/-- Reject `((x))`: per unmatched `(` the stack says whether the token before it was one too.  The
error is under the prefix of the key condition parser. -/
def checkRedundantParens (previous : Option Token) (stack : List Bool) : List Token → Result Unit
  | [] => .ok ()
  | .lParen :: rest =>
    checkRedundantParens (some .lParen) ((previous == some .lParen) :: stack) rest
  | .rParen :: rest =>
    if stack.head? = some true ∧ rest.head? = some .rParen then
      .error (keyConditionErr "The expression has redundant parentheses;")
    else checkRedundantParens (some .rParen) stack.tail rest
  | token :: rest => checkRedundantParens (some token) stack rest

def outerParensMatch (depth : Int) : List Token → Bool
  | [] => depth == 0
  | .lParen :: rest => outerParensMatch (depth + 1) rest
  | .rParen :: rest =>
    if depth - 1 = 0 ∧ !rest.isEmpty then false else outerParensMatch (depth - 1) rest
  | _ :: rest => outerParensMatch depth rest

/-! ## Clauses -/

/-- A parsed clause before it is known whether it is for the partition or the sort key. -/
inductive RawClause where
  | eq (path : List PathElement) (value : Expr)
  | compare (path : List PathElement) (op : CompareOp) (value : Expr)
  | between (path : List PathElement) (low high : Expr)
  | beginsWith (path : List PathElement) (value : Expr)

def RawClause.path : RawClause → List PathElement
  | .eq path _ | .compare path _ _ | .between path _ _ | .beginsWith path _ => path

inductive KeyOperand where
  | path (path : List PathElement)
  | value (value : Expr)

def tryComparator : Token → Option CompareOp
  | .eq => some .eq
  | .ne => some .ne
  | .lt => some .lt
  | .le => some .le
  | .gt => some .gt
  | .ge => some .ge
  | _ => none

def reverseComparator : CompareOp → CompareOp
  | .eq => .eq
  | .ne => .ne
  | .lt => .gt
  | .le => .ge
  | .gt => .lt
  | .ge => .le

def parseKeyValue : List Token → Result (Expr × List Token)
  | [] => .error (keyConditionErr "expected value")
  | .placeholder name :: rest => .ok (.placeholder name, rest)
  | _ => .error (keyConditionErr
      "key condition values must be expression attribute value placeholders")

def parseKeyOperandPath : List Token → Result (List PathElement × List Token)
  | .ident name :: rest => parsePath (.ident name :: rest)
  | .nameRef name :: rest => parsePath (.nameRef name :: rest)
  | _ => .error (keyConditionErr "expected attribute path")

def parseKeyOperand : List Token → Result (KeyOperand × List Token)
  | [] => .error (keyConditionErr "unexpected end of expression")
  | .ident name :: rest => do
    let (path, rest) ← parsePath (.ident name :: rest)
    pure (.path path, rest)
  | .nameRef name :: rest => do
    let (path, rest) ← parsePath (.nameRef name :: rest)
    pure (.path path, rest)
  | .placeholder name :: rest => do
    let (value, rest) ← parseKeyValue (.placeholder name :: rest)
    pure (.value value, rest)
  | _ => .error (keyConditionErr "expected attribute path or value placeholder")

def parseKeyComparator (token : Token) : Result CompareOp :=
  match tryComparator token with
  | none => .error (keyConditionErr "expected comparison operator")
  | some op =>
    if op = .ne then .error (keyConditionErr "Unsupported operator on KeyCondition: NE")
    else .ok op

def rawCompare (path : List PathElement) (op : CompareOp) (value : Expr) : RawClause :=
  if op = .eq then .eq path value else .compare path op value

def isBeginsWith (name : String) : Bool :=
  name.toList.map Char.toLower == "begins_with".toList

def parseBeginsWith (tokens : List Token) : Result (RawClause × List Token) := do
  let rest ← expectToken .lParen "(" "KeyConditionExpression" tokens
  let (path, rest) ← parseKeyOperandPath rest
  let rest ← expectToken .comma "," "KeyConditionExpression" rest
  let (value, rest) ← parseKeyValue rest
  let rest ← expectToken .rParen ")" "KeyConditionExpression" rest
  pure (.beginsWith path value, rest)

def parseComparison (tokens : List Token) : Result (RawClause × List Token) := do
  let (left, rest) ← parseKeyOperand tokens
  match rest with
  | [] => throw (keyConditionErr "expected operator after operand")
  | token :: rest =>
    match left with
    | .value value => do
      let op ← parseKeyComparator token
      let (path, rest) ← parseKeyOperandPath rest
      -- key conditions are kept with the path first
      pure (rawCompare path (reverseComparator op) value, rest)
    | .path path =>
      if token = .between then do
        let (low, rest) ← parseKeyValue rest
        let rest ← expectToken .and "AND" "KeyConditionExpression" rest
        let (high, rest) ← parseKeyValue rest
        pure (.between path low high, rest)
      else do
        let op ← parseKeyComparator token
        let (value, rest) ← parseKeyValue rest
        pure (rawCompare path op value, rest)

def parseKeyClauseInner (tokens : List Token) : Result (RawClause × List Token) :=
  match tokens with
  | [] => .error (keyConditionErr "unexpected end of expression")
  | .ident name :: .lParen :: rest =>
    if isBeginsWith name then parseBeginsWith (.lParen :: rest)
    else parseComparison tokens
  | _ => parseComparison tokens

def parseKeyClause : List Token → Result (RawClause × List Token)
  | [] => .error (keyConditionErr "unexpected end of expression")
  | .lParen :: rest => do
    let (clause, rest) ← parseKeyClauseInner rest
    match rest with
    | .rParen :: rest => pure (clause, rest)
    | _ => throw (keyConditionErr "expected ')'")
  | tokens => parseKeyClauseInner tokens

def parseMoreClauses : Nat → List Token → Result (List RawClause)
  | _, [] => .ok []
  | 0, _ => .error (keyConditionErr "unexpected token after key conditions")
  | fuel + 1, token :: rest => do
    if token ≠ .and then
      throw (keyConditionErr "only AND is supported between key conditions")
    let (clause, rest) ← parseKeyClause rest
    let clauses ← parseMoreClauses fuel rest
    pure (clause :: clauses)

/-- The path is a single top-level attribute. -/
def rejectNestedKeyPath : List PathElement → Result Unit
  | [.attr _] => .ok ()
  | _ => .error (keyConditionErr
      "KeyConditionExpressions cannot have conditions on nested attributes")

/-- The tokens inside the parentheses around the whole expression, if there are any. -/
def stripOuterParens (tokens : List Token) : List Token :=
  if tokens.length ≥ 2 ∧ tokens.head? = some .lParen ∧ tokens.getLast? = some .rParen ∧
      outerParensMatch 0 tokens = true then
    (tokens.drop 1).dropLast
  else tokens

def parseClauses (tokens : List Token) : Result (List RawClause) := do
  checkRedundantParens none [] tokens
  let (first, rest) ← parseKeyClause (stripOuterParens tokens)
  let more ← parseMoreClauses rest.length rest
  (first :: more).forM (fun clause => rejectNestedKeyPath clause.path)
  pure (first :: more)

/-! ## Redundant parentheses -/

open List

/-- A `(` pushes its own mark, a `)` closes the nearest group. -/
def nest {α : Type} (mark : α) (stack : List α) : Token → List α
  | .lParen => mark :: stack
  | .rParen => stack.tail
  | _ => stack

/-- The positions below `n` of the `(` that no `)` below `n` matches, the nearest first. -/
def unmatched (tokens : List Token) : Nat → List Nat
  | 0 => []
  | n + 1 => (tokens[n]?.map (nest n (unmatched tokens n))).getD (unmatched tokens n)

theorem mem_unmatched {tokens p n} (h : p ∈ unmatched tokens n) :
    p < n ∧ tokens[p]? = some .lParen := by
  induction n with
  | zero => cases h
  | succ n ih =>
    have hbelow (hp : p ∈ unmatched tokens n) := (ih hp).imp_left Nat.lt_succ_of_lt
    rw [unmatched] at h
    cases ht : tokens[n]? with
    | none => exact hbelow (by rwa [ht] at h)
    | some t =>
      rw [ht] at h
      cases t
      case lParen =>
        rcases mem_cons.mp h with rfl | h
        · exact ⟨Nat.lt_succ_self p, ht⟩
        · exact hbelow h
      case rParen => exact hbelow (mem_of_mem_tail h)
      all_goals exact hbelow h

/-- Whether the token before position `p` is a `(`. -/
def afterOpen (tokens : List Token) (p : Nat) : Bool :=
  (tokens.take p).getLast? == some .lParen

/-- Token `j` closes a group that opens behind a `(`, and a `)` follows it. -/
def RedundantAt (tokens : List Token) (j : Nat) : Prop :=
  tokens[j]? = some .rParen ∧ ((unmatched tokens j).map (afterOpen tokens)).head? = some true ∧
    tokens[j + 1]? = some .rParen

theorem map_nest {α β : Type} (f : α → β) (mark stack t) :
    (nest mark stack t).map f = nest (f mark) (stack.map f) t := by
  cases t <;> simp [nest]

theorem checkRedundantParens_cons (previous stack t rest) :
    checkRedundantParens previous stack (t :: rest) =
      if t = .rParen ∧ stack.head? = some true ∧ rest.head? = some .rParen then
        .error (keyConditionErr "The expression has redundant parentheses;")
      else checkRedundantParens (some t) (nest (previous == some .lParen) stack t) rest := by
  cases t <;> simp [checkRedundantParens, nest]

-- the run behind `before`: the stack holds one flag for each position that is unmatched there
theorem checkRedundantParens_error_iff (before rest : List Token) :
    (∃ e, checkRedundantParens before.getLast? ((unmatched (before ++ rest) before.length).map
      (afterOpen (before ++ rest))) rest = .error e) ↔
      ∃ j, before.length ≤ j ∧ RedundantAt (before ++ rest) j := by
  induction rest generalizing before with
  | nil =>
    refine iff_of_false (fun ⟨e, he⟩ => by cases he) fun ⟨j, hj, hclose, _⟩ => ?_
    rw [append_nil, getElem?_eq_none hj] at hclose
    cases hclose
  | cons t rest ih =>
    have ht : (before ++ t :: rest)[before.length]? = some t := by simp
    have hnext : (before ++ t :: rest)[before.length + 1]? = rest.head? := by
      simp [getElem?_append_right, head?_eq_getElem?]
    have hrun := ih (before ++ [t])
    rw [← append_cons, length_append, length_singleton, unmatched, ht, getLast?_concat,
      Option.map_some, Option.getD_some, map_nest, afterOpen, take_left] at hrun
    rw [checkRedundantParens_cons]
    by_cases h : RedundantAt (before ++ t :: rest) before.length
    · rw [if_pos (by rwa [RedundantAt, ht, hnext, Option.some.injEq] at h)]
      exact iff_of_true ⟨_, rfl⟩ ⟨_, le_rfl, h⟩
    · rw [if_neg (by rwa [RedundantAt, ht, hnext, Option.some.injEq] at h), hrun]
      refine exists_congr fun j => and_congr_left fun hj => ?_
      have hne : j ≠ before.length := fun heq => h (heq ▸ hj)
      omega

theorem checkRedundantParens_append {a : List Token} (ha : ∀ t ∈ a, t ≠ .lParen ∧ t ≠ .rParen)
    (previous stack rest) : ∃ last, checkRedundantParens previous stack (a ++ rest) =
      checkRedundantParens last stack rest := by
  induction a generalizing previous with
  | nil => exact ⟨previous, rfl⟩
  | cons t a ih =>
    obtain ⟨last, hrun⟩ := ih (fun u hu => ha u (mem_cons_of_mem t hu)) (some t)
    have ht := ha t mem_cons_self
    refine ⟨last, .trans ?_ hrun⟩
    cases t <;> first | rfl | simp at ht

theorem checkRedundantParens_exact (tokens : List Token) :
    ((∃ e, checkRedundantParens none [] tokens = .error e) ↔
      ∃ i j, i < j ∧ tokens[i]? = some .lParen ∧ tokens[i + 1]? = some .lParen ∧
        tokens[j]? = some .rParen ∧ tokens[j + 1]? = some .rParen ∧
        (unmatched tokens j).head? = some (i + 1)) ∧
    ∀ a b : List Token, (∀ t ∈ a ++ b, t ≠ .lParen ∧ t ≠ .rParen) → checkRedundantParens none []
      (.lParen :: .lParen :: (a ++ .rParen :: .and :: .lParen :: (b ++ [.rParen, .rParen]))) =
        .ok () := by
  refine ⟨(checkRedundantParens_error_iff [] tokens).trans ⟨?_, ?_⟩, fun a b hab => ?_⟩
  · rintro ⟨j, -, hj, hflag, hnext⟩
    obtain ⟨p, hp, hlast⟩ := Option.map_eq_some_iff.mp (head?_map.symm.trans hflag)
    obtain ⟨hlt, hopen⟩ := mem_unmatched (mem_of_head? hp)
    cases p with
    | zero => cases hlast
    | succ i =>
      have hi : i < tokens.length := by
        obtain ⟨hlen, -⟩ := List.getElem?_eq_some_iff.mp hopen
        exact Nat.lt_of_succ_lt hlen
      rw [nil_append, afterOpen, beq_iff_eq, take_succ_eq_append_getElem hi, getLast?_concat,
        ← getElem?_eq_getElem hi] at hlast
      exact ⟨i, j, Nat.lt_of_succ_lt hlt, hlast, hopen, hj, hnext, hp⟩
  · rintro ⟨i, j, -, hi, -, hj, hnext, hp⟩
    refine ⟨j, Nat.zero_le j, hj, ?_, hnext⟩
    simp [head?_map, hp, afterOpen, getLast?_take, hi]
  · rw [forall_mem_append] at hab
    obtain ⟨last, hfirst⟩ := checkRedundantParens_append hab.1 (some .lParen) [true, false]
      (.rParen :: .and :: .lParen :: (b ++ [.rParen, .rParen]))
    obtain ⟨last', hsecond⟩ := checkRedundantParens_append hab.2 (some .lParen) [false, false]
      [.rParen, .rParen]
    exact hfirst.trans hsecond

end ExtendDb
