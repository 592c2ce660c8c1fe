import Mathlib.Algebra.Group.Nat.Defs
import ExtendDb.Theory.Fallible
import ExtendDb.Error

/-!
# Expression tokenizer

`tokenize_for`, which splits the text of an expression into tokens, and the reserved word check on
them.
-/

namespace ExtendDb

open Fallible String

/-- What an expression is for, as its error messages name it. -/
inductive ExpressionKind where
  | projection
  | condition
  | filter
  | keyCondition
  | update
deriving DecidableEq

def ExpressionKind.asStr : ExpressionKind → String
  | .projection => "ProjectionExpression"
  | .condition => "ConditionExpression"
  | .filter => "FilterExpression"
  | .keyCondition => "KeyConditionExpression"
  | .update => "UpdateExpression"

inductive Token where
  | ident (name : String)
  | nameRef (name : String)
  | placeholder (name : String)
  | eq | ne | lt | le | gt | ge
  | plus | minus | comma | dot | lBracket | rBracket | lParen | rParen
  | and | or | not | between | in | set | remove | add | delete
deriving DecidableEq

def isIdentStart (c : Char) : Bool := c.isAlpha || c == '_'

def isIdentChar (c : Char) : Bool := c.isAlphanum || c == '_'

def keywordOrIdent (word : List Char) : Token :=
  let upper := ofList (word.map Char.toUpper)
  if upper = "AND" then .and
  else if upper = "OR" then .or
  else if upper = "NOT" then .not
  else if upper = "SET" then .set
  else if upper = "REMOVE" then .remove
  else if upper = "BETWEEN" then .between
  else if upper = "IN" then .in
  else if upper = "ADD" then .add
  else if upper = "DELETE" then .delete
  else .ident (ofList word)

def punctuation : Char → Option Token
  | '(' => some .lParen
  | ')' => some .rParen
  | '[' => some .lBracket
  | ']' => some .rBracket
  | ',' => some .comma
  | '.' => some .dot
  | '+' => some .plus
  | '-' => some .minus
  | '=' => some .eq
  | _ => none

def syntaxErr (kind : ExpressionKind) (token near : String) : DynamoDbError :=
  .validationException ("Invalid " ++ kind.asStr ++ ": Syntax error; token: \"" ++ token ++
    "\", near: \"" ++ near ++ "\"")

def signedWord (kind : ExpressionKind) (sign : String) (token : String → Token)
    (rest : List Char) : Result (Option (Token × Nat)) :=
  let word := rest.takeWhile isIdentChar
  if word.isEmpty then .error (syntaxErr kind sign sign)
  else .ok (some (token (ofList word), word.length))

def lexeme (kind : ExpressionKind) (c : Char) (rest : List Char) : Result (Option (Token × Nat)) :=
  if c = ' ' ∨ c = '\t' ∨ c = '\n' ∨ c = '\r' then .ok none
  else match punctuation c with
  | some token => .ok (some (token, 0))
  | none =>
    if c = '<' then
      if rest.head? = some '>' then .ok (some (.ne, 1))
      else if rest.head? = some '=' then .ok (some (.le, 1))
      else .ok (some (.lt, 0))
    else if c = '>' then
      if rest.head? = some '=' then .ok (some (.ge, 1)) else .ok (some (.gt, 0))
    else if c = '#' then signedWord kind "#" .nameRef rest
    else if c = ':' then signedWord kind ":" .placeholder rest
    else if isIdentStart c then
      let word := rest.takeWhile isIdentChar
      .ok (some (keywordOrIdent (c :: word), word.length))
    else if c.isDigit then
      let digits := rest.takeWhile Char.isDigit
      .ok (some (.ident (ofList (c :: digits)), digits.length))
    else
      .error (syntaxErr kind (singleton c) (ofList (c :: rest.take 1)))

def tokenizeFrom (kind : ExpressionKind) (maxTokens count : Nat) :
    Nat → List Char → Result (List Token)
  | _, [] => .ok []
  | skip + 1, _ :: rest => tokenizeFrom kind maxTokens count skip rest
  | 0, c :: rest => do
    match ← lexeme kind c rest with
    | none => tokenizeFrom kind maxTokens count 0 rest
    | some (token, length) =>
      if count ≥ maxTokens then
        throw (.validationException
          ("Expression exceeds maximum token count (" ++ toString maxTokens ++ ")"))
      let tokens ← tokenizeFrom kind maxTokens (count + 1) length rest
      pure (token :: tokens)

def tokenizeFor (input : String) (maxTokens : Nat) (kind : ExpressionKind) : Result (List Token) :=
  if input.isEmpty then
    .error (.validationException ("Invalid " ++ kind.asStr ++ ": The expression can not be empty;"))
  else tokenizeFrom kind maxTokens 0 0 input.toList

/-! ## Reserved words -/

/-- `word.parse::<u64>().is_ok()` on a token of the tokenizer: it carries no sign. -/
def isU64 (word : String) : Bool :=
  !word.isEmpty && word.toList.all Char.isDigit && Nat.ofDigitChars 10 word.toList 0 < 2 ^ 64

def validateNoReservedWords (isReserved : String → Bool) : List Token → Result Unit
  | [] => .ok ()
  | .ident word :: rest =>
    if isU64 word || rest.head? == some .lParen ||
        !isReserved (ofList (word.toList.map Char.toUpper)) then
      validateNoReservedWords isReserved rest
    else
      .error (.validationException
        ("Invalid expression: Attribute name is a reserved keyword; reserved keyword: " ++ word))
  | _ :: rest => validateNoReservedWords isReserved rest

/-! ## Identifiers -/

/-- An identifier does not look like a name reference. -/
def Token.PlainIdent (token : Token) : Prop :=
  ∀ name, token = .ident name → name.toList.head? ≠ some '#'

variable {c : Char}

theorem plainIdent_ident (hc : c ≠ '#') (word) : (Token.ident (ofList (c :: word))).PlainIdent := by
  intro name hname
  cases hname
  simpa using hc

theorem plainIdent_keywordOrIdent (hc : c ≠ '#') (word) :
    (keywordOrIdent (c :: word)).PlainIdent := by
  intro name hname
  simp only [keywordOrIdent] at hname
  repeat' split at hname
  all_goals first
    | exact plainIdent_ident hc word name hname
    | cases hname

variable {kind : ExpressionKind}

theorem lexeme_plainIdent {rest token length}
    (h : lexeme kind c rest = .ok (some (token, length))) : token.PlainIdent := by
  have hsigned {sign : String} {wrap : String → Token} (hwrap : ∀ w, (wrap w).PlainIdent)
      (h : signedWord kind sign wrap rest = .ok (some (token, length))) : token.PlainIdent := by
    simp only [signedWord] at h
    split at h <;> cases h
    exact hwrap _
  have hother {t : Token} (ht : ∀ name, t ≠ .ident name) : t.PlainIdent :=
    fun name hname => absurd hname (ht name)
  unfold lexeme at h
  split at h
  · cases h
  split at h
  · rename_i hpunct
    cases h
    unfold punctuation at hpunct
    split at hpunct <;> cases hpunct <;> exact hother (by simp)
  split_ifs at h with _ _ _ _ _ hhash
  all_goals first
    | exact hsigned (fun w => hother (by simp)) h
    | cases h
  all_goals first
    | exact plainIdent_keywordOrIdent hhash _
    | exact plainIdent_ident hhash _
    | exact hother (by simp)

theorem tokenizeFrom_plainIdent {maxTokens count skip text tokens}
    (h : tokenizeFrom kind maxTokens count skip text = .ok tokens) :
    ∀ token ∈ tokens, token.PlainIdent := by
  induction text generalizing count skip tokens with
  | nil =>
    cases skip <;> cases h <;> simp
  | cons c rest ih =>
    cases skip with
    | succ skip => exact ih h
    | zero =>
      obtain ⟨found, hlexeme, h⟩ := unbind h
      cases found with
      | none => exact ih h
      | some found =>
        simp only at h
        split at h
        · cases h
        · obtain ⟨more, hmore, h⟩ := unbind h
          cases h
          exact List.forall_mem_cons.mpr ⟨lexeme_plainIdent hlexeme, ih hmore⟩

/-! ## The tokenizer without an expression kind -/

def emptyWordErr (what : String) : DynamoDbError :=
  .validationException ("Invalid expression: empty " ++ what)

/-- The characters that start in the next `room` bytes. -/
def charsWithin : Nat → List Char → List Char
  | 0, _ | _, [] => []
  | room, c :: rest => c :: charsWithin (room - c.utf8Size) rest

def lexemeBare (before : List Char) (c : Char) (rest : List Char) : Result (Option (Token × Nat)) :=
  if c = ' ' ∨ c = '\t' ∨ c = '\n' ∨ c = '\r' then .ok none
  else match punctuation c with
  | some token => .ok (some (token, 0))
  | none =>
    if c = '<' then
      if rest.head? = some '>' then .ok (some (.ne, 1))
      else if rest.head? = some '=' then .ok (some (.le, 1))
      else .ok (some (.lt, 0))
    else if c = '>' then
      if rest.head? = some '=' then .ok (some (.ge, 1)) else .ok (some (.gt, 0))
    else if c = '#' then
      let word := rest.takeWhile isIdentChar
      if word.isEmpty then .error (emptyWordErr "name reference '#'")
      else .ok (some (.nameRef (ofList word), word.length))
    else if c = ':' then
      let word := rest.takeWhile isIdentChar
      if word.isEmpty then .error (emptyWordErr "value placeholder ':'")
      else .ok (some (.placeholder (ofList word), word.length))
    else if isIdentStart c then
      let word := rest.takeWhile isIdentChar
      .ok (some (keywordOrIdent (c :: word), word.length))
    else if c.isDigit then
      let digits := rest.takeWhile Char.isDigit
      .ok (some (.ident (ofList (c :: digits)), digits.length))
    else
      -- whatever was read before is ASCII, so five bytes back are five characters
      .error (.validationException ("Syntax error; token: \"" ++ singleton c ++
        "\", near: \"" ++ ofList ((before.take 5).reverse ++ charsWithin 5 (c :: rest)) ++
        "\""))

/-- The loop of `tokenize_with_limit`; `before` is the text read, last character first. -/
def tokenizeBare (maxTokens : Nat) : List Char → Nat → Nat → List Char → Result (List Token)
  | _, _, _, [] => .ok []
  | before, count, skip + 1, c :: rest => tokenizeBare maxTokens (c :: before) count skip rest
  | before, count, 0, c :: rest => do
    match ← lexemeBare before c rest with
    | none => tokenizeBare maxTokens (c :: before) count 0 rest
    | some (token, length) =>
      if count ≥ maxTokens then
        throw (.validationException
          ("Expression exceeds maximum token count (" ++ toString maxTokens ++ ")"))
      let tokens ← tokenizeBare maxTokens (c :: before) (count + 1) length rest
      pure (token :: tokens)

def tokenizeWithLimit (input : String) (maxTokens : Nat) : Result (List Token) :=
  tokenizeBare maxTokens [] 0 0 input.toList

theorem lexemeBare_eq_ok {before rest found} :
    lexemeBare before c rest = .ok found ↔ lexeme kind c rest = .ok found := by
  unfold lexemeBare lexeme signedWord
  split
  · rfl
  split
  · rfl
  -- only the texts of the errors differ
  split_ifs <;> cases rest.takeWhile isIdentChar <;> simp

theorem tokenizeBare_eq_ok {maxTokens text before count skip tokens} :
    tokenizeBare maxTokens before count skip text = .ok tokens ↔
      tokenizeFrom kind maxTokens count skip text = .ok tokens := by
  induction text generalizing before count skip tokens with
  | nil => cases skip <;> rfl
  | cons c rest ih =>
    cases skip with
    | succ skip => exact ih
    | zero =>
      rw [tokenizeBare, tokenizeFrom, bind_eq_ok, bind_eq_ok]
      refine exists_congr fun found => and_congr lexemeBare_eq_ok ?_
      cases found with
      | none => exact ih
      | some found =>
        simp only
        split
        · simp
        · rw [bind_eq_ok, bind_eq_ok]
          exact exists_congr fun more => and_congr_left fun _ => ih

/-- The two tokenizers accept the same texts, the empty one apart, and read the same tokens. -/
theorem tokenizeFor_tokenizeWithLimit (input : String) (maxTokens : Nat) (kind : ExpressionKind) :
    (∀ tokens tokens', tokenizeFor input maxTokens kind = .ok tokens →
      tokenizeWithLimit input maxTokens = .ok tokens' → tokens = tokens') ∧
    (input ≠ "" → ((∃ tokens, tokenizeFor input maxTokens kind = .ok tokens) ↔
      ∃ tokens, tokenizeWithLimit input maxTokens = .ok tokens)) := by
  have hsame {tokens : List Token} (hne : input.isEmpty = false) :
      tokenizeFor input maxTokens kind = .ok tokens ↔
        tokenizeWithLimit input maxTokens = .ok tokens := by
    rw [tokenizeFor, hne, tokenizeWithLimit]
    exact tokenizeBare_eq_ok.symm
  constructor
  · intro tokens tokens' hfor hlimit
    have hne : input.isEmpty = false := by
      by_contra hempty
      rw [tokenizeFor, if_pos (by simpa using hempty)] at hfor
      cases hfor
    exact Except.ok.inj (((hsame hne).mp hfor).symm.trans hlimit)
  · intro hne
    exact exists_congr fun tokens => hsame (by simpa using hne)

end ExtendDb
