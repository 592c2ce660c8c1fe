import ExtendDb.Expression.KeyClause

/-!
# Clauses as they are written

The grammar of a `KeyConditionExpression` as token sequences, and that the parser reads nothing
else: the clauses it returns are the clauses the tokens spell, each turned so that its attribute
stands first.
-/

namespace ExtendDb

open Fallible List

inductive AttrRef where
  | ident (name : String)
  | nameRef (name : String)
deriving DecidableEq

namespace AttrRef

def token : AttrRef → Token
  | .ident name => .ident name
  | .nameRef name => .nameRef name

def path : AttrRef → List PathElement
  | .ident name => [.attr name]
  | .nameRef name => [.attr ("#" ++ name)]

end AttrRef

inductive WrittenClause where
  | compare (attr : AttrRef) (op : CompareOp) (value : String)
  | reversed (value : String) (op : CompareOp) (attr : AttrRef)
  | between (attr : AttrRef) (low high : String)
  | beginsWith (function : String) (attr : AttrRef) (value : String)
deriving DecidableEq

def comparatorToken : CompareOp → Token
  | .eq => .eq
  | .ne => .ne
  | .lt => .lt
  | .le => .le
  | .gt => .gt
  | .ge => .ge

namespace WrittenClause

def attr : WrittenClause → AttrRef
  | .compare attr _ _ | .reversed _ _ attr | .between attr _ _ | .beginsWith _ attr _ => attr

def tokens : WrittenClause → List Token
  | .compare attr op value => [attr.token, comparatorToken op, .placeholder value]
  | .reversed value op attr => [.placeholder value, comparatorToken op, attr.token]
  | .between attr low high =>
    [attr.token, .between, .placeholder low, .and, .placeholder high]
  | .beginsWith function attr value =>
    [.ident function, .lParen, attr.token, .comma, .placeholder value, .rParen]

/-- The clause with its attribute first, as the parser keeps it. -/
def raw : WrittenClause → RawClause
  | .compare attr op value => rawCompare attr.path op (.placeholder value)
  | .reversed value op attr => rawCompare attr.path (reverseComparator op) (.placeholder value)
  | .between attr low high => .between attr.path (.placeholder low) (.placeholder high)
  | .beginsWith _ attr value => .beginsWith attr.path (.placeholder value)

end WrittenClause

inductive SpellsClause : WrittenClause → List Token → Prop where
  | bare (c : WrittenClause) : SpellsClause c c.tokens
  | parens (c : WrittenClause) : SpellsClause c (.lParen :: c.tokens ++ [.rParen])

/-- The tokens of several clauses with `AND` between them. -/
inductive SpellsAnd : List WrittenClause → List Token → Prop where
  | single {c ts} (h : SpellsClause c ts) : SpellsAnd [c] ts
  | and {c cs ts rest} (h : SpellsClause c ts) (hrest : SpellsAnd cs rest) :
      SpellsAnd (c :: cs) (ts ++ .and :: rest)

def Spells (clauses : List WrittenClause) (tokens : List Token) : Prop :=
  SpellsAnd clauses tokens ∨
    ∃ inner, tokens = .lParen :: inner ++ [.rParen] ∧ SpellsAnd clauses inner

/-! ## A text spells one list of clauses -/

theorem AttrRef.token_inj {a b : AttrRef} (h : a.token = b.token) : a = b := by
  cases a <;> cases b <;> simp [token] at h <;> rw [h]

theorem comparatorToken_inj {op op'} (h : comparatorToken op = comparatorToken op') : op = op' := by
  cases op <;> cases op' <;> first | rfl | cases h

variable {rest : List Token}

theorem WrittenClause.tokens_append_inj {c c' : WrittenClause} {rest'}
    (h : c.tokens ++ rest = c'.tokens ++ rest') : c = c' ∧ rest = rest' := by
  have hattr (a : AttrRef) (name : String) : a.token ≠ .placeholder name := by
    cases a <;> simp [AttrRef.token]
  have hcmp (op : CompareOp) : comparatorToken op ≠ .between ∧ comparatorToken op ≠ .lParen := by
    cases op <;> simp [comparatorToken]
  cases c <;> cases c' <;> simp [tokens, hattr, (hattr _ _).symm, hcmp, ((hcmp _).1).symm,
    ((hcmp _).2).symm] at h
  · obtain ⟨ha, hop, rfl, rfl⟩ := h
    rw [AttrRef.token_inj ha, comparatorToken_inj hop]
    exact ⟨rfl, rfl⟩
  · obtain ⟨rfl, hop, ha, rfl⟩ := h
    rw [AttrRef.token_inj ha, comparatorToken_inj hop]
    exact ⟨rfl, rfl⟩
  · obtain ⟨ha, rfl, rfl, rfl⟩ := h
    rw [AttrRef.token_inj ha]
    exact ⟨rfl, rfl⟩
  · obtain ⟨rfl, ha, rfl, rfl⟩ := h
    rw [AttrRef.token_inj ha]
    exact ⟨rfl, rfl⟩

theorem WrittenClause.tokens_ne_lParen (c : WrittenClause) (rest ts) :
    c.tokens ++ rest ≠ .lParen :: ts := by
  cases c <;> simp [tokens] <;> (rename_i attr _ _; cases attr <;> simp [AttrRef.token])

variable {ts : List Token}

open WrittenClause

theorem SpellsClause.append_inj {c c' : WrittenClause} {ts' rest'} (h : SpellsClause c ts)
    (h' : SpellsClause c' ts') (heq : ts ++ rest = ts' ++ rest') :
    c = c' ∧ ts = ts' ∧ rest = rest' := by
  cases h with
  | bare =>
    cases h' with
    | bare =>
      obtain ⟨rfl, hrest⟩ := tokens_append_inj heq
      exact ⟨rfl, rfl, hrest⟩
    | parens => exact absurd heq (by simpa using c.tokens_ne_lParen _ _)
  | parens =>
    cases h' with
    | bare => exact absurd heq.symm (by simpa using c'.tokens_ne_lParen _ _)
    | parens =>
      have htail : c.tokens ++ (.rParen :: rest) = c'.tokens ++ (.rParen :: rest') := by
        simpa using heq
      obtain ⟨rfl, hrest⟩ := tokens_append_inj htail
      exact ⟨rfl, rfl, by simpa using hrest⟩

variable {tokens : List Token} {clauses : List WrittenClause}

theorem SpellsAnd.first (h : SpellsAnd clauses tokens) :
    ∃ c cs ts tail, clauses = c :: cs ∧ tokens = ts ++ tail ∧ SpellsClause c ts ∧
      ((cs = [] ∧ tail = []) ∨ ∃ rest, tail = .and :: rest ∧ SpellsAnd cs rest) := by
  cases h with
  | single h => exact ⟨_, [], _, [], rfl, by simp, h, .inl ⟨rfl, rfl⟩⟩
  | and h hrest => exact ⟨_, _, _, _, rfl, rfl, h, .inr ⟨_, rfl, hrest⟩⟩

theorem SpellsAnd.unique {clauses'} (h : SpellsAnd clauses tokens) (h' : SpellsAnd clauses' tokens) :
    clauses = clauses' := by
  induction h generalizing clauses' with
  | single h =>
    obtain ⟨c', cs', ts', tail, rfl, heq, hclause, htail⟩ := h'.first
    obtain ⟨rfl, rfl, rfl⟩ := h.append_inj hclause ((append_nil _).trans heq)
    rcases htail with ⟨rfl, -⟩ | ⟨_, hcons, -⟩
    · rfl
    · cases hcons
  | and h _ ih =>
    obtain ⟨c', cs', ts', tail, rfl, heq, hclause, htail⟩ := h'.first
    obtain ⟨rfl, rfl, hrest⟩ := h.append_inj hclause heq
    rcases htail with ⟨-, rfl⟩ | ⟨_, rfl, hspells⟩
    · cases hrest
    · cases hrest
      rw [ih hspells]

theorem SpellsAnd.unique_of_parens {clauses' inner}
    (h : SpellsAnd clauses (.lParen :: inner ++ [.rParen])) (h' : SpellsAnd clauses' inner) :
    clauses = clauses' := by
  obtain ⟨c, cs, ts, tail, rfl, heq, hclause, htail⟩ := h.first
  obtain ⟨c', cs', ts', tail', rfl, rfl, hclause', htail'⟩ := h'.first
  cases hclause with
  | bare => exact absurd heq.symm (by simpa using c.tokens_ne_lParen _ _)
  | parens =>
    have hinner : c.tokens ++ (.rParen :: tail) = ts' ++ (tail' ++ [.rParen]) := by
      simpa using heq.symm
    obtain ⟨rfl, -, hrest⟩ := (SpellsClause.bare c).append_inj hclause' hinner
    rcases htail' with ⟨rfl, rfl⟩ | ⟨rest', rfl, -⟩
    · rcases htail with ⟨rfl, -⟩ | ⟨_, rfl, -⟩
      · rfl
      · simp at hrest
    · simp at hrest

theorem Spells.unique {clauses'} (h : Spells clauses tokens) (h' : Spells clauses' tokens) :
    clauses = clauses' := by
  rcases h with h | ⟨inner, rfl, h⟩
  · rcases h' with h' | ⟨inner', rfl, h'⟩
    · exact h.unique h'
    · exact h.unique_of_parens h'
  rcases h' with h' | ⟨inner', heq, h'⟩
  · exact (h'.unique_of_parens h).symm
  · obtain rfl : inner = inner' := by simpa using heq
    exact h.unique h'

/-! ## What the parser reads -/

theorem parsePathRest_nil (h : parsePathRest ts = .ok ([], rest)) : rest = ts := by
  unfold parsePathRest at h
  split at h
  · obtain ⟨⟨_, _⟩, -, h⟩ := unbind h
    cases h
  · obtain ⟨⟨_, _⟩, -, h⟩ := unbind h
    cases h
  · cases h
  · split at h
    · cases h
    split at h
    · obtain ⟨⟨_, _⟩, -, h⟩ := unbind h
      cases h
    · cases h
  · cases h
  · cases h
    rfl

variable {a : PathElement}

theorem parsePath_single (h : parsePath ts = .ok ([a], rest)) :
    ∃ attr : AttrRef, attr.path = [a] ∧ ts = attr.token :: rest := by
  unfold parsePath at h
  split at h
  · obtain ⟨⟨elements, rest'⟩, hrest, h⟩ := unbind h
    cases h
    rw [parsePathRest_nil hrest]
    exact ⟨.ident _, rfl, rfl⟩
  · obtain ⟨⟨elements, rest'⟩, hrest, h⟩ := unbind h
    cases h
    rw [parsePathRest_nil hrest]
    exact ⟨.nameRef _, rfl, rfl⟩
  · cases h

theorem parseKeyOperandPath_eq_parsePath {r} (h : parseKeyOperandPath ts = .ok r) :
    parsePath ts = .ok r := by
  unfold parseKeyOperandPath at h
  split at h
  · exact h
  · exact h
  · cases h

theorem parseKeyValue_ok {value} (h : parseKeyValue ts = .ok (value, rest)) :
    ∃ name, value = .placeholder name ∧ ts = .placeholder name :: rest := by
  unfold parseKeyValue at h
  split at h
  · cases h
  · cases h
    exact ⟨_, rfl, rfl⟩
  · cases h

theorem expectToken_ok {expected label context}
    (h : expectToken expected label context ts = .ok rest) : ts = expected :: rest := by
  unfold expectToken at h
  split at h
  · split at h
    · cases h
      simp_all
    · cases h
  · cases h

theorem parseKeyComparator_ok {token op} (h : parseKeyComparator token = .ok op) :
    token = comparatorToken op ∧ op ≠ .ne := by
  cases token <;> simp [parseKeyComparator, tryComparator] at h <;> subst h <;>
    exact ⟨rfl, by decide⟩

theorem rawCompare_path (path op value) : (rawCompare path op value).path = path := by
  unfold rawCompare
  split <;> rfl

variable {c : RawClause}

theorem parseBeginsWith_ok (h : parseBeginsWith ts = .ok (c, rest)) (hpath : c.path = [a])
    (function) :
    ∃ w : WrittenClause, w.raw = c ∧ .ident function :: ts = w.tokens ++ rest := by
  obtain ⟨_, hl, h⟩ := unbind h
  obtain ⟨⟨path, _⟩, hp, h⟩ := unbind h
  obtain ⟨_, hc, h⟩ := unbind h
  obtain ⟨⟨value, _⟩, hv, h⟩ := unbind h
  obtain ⟨_, hr, h⟩ := unbind h
  cases h
  cases hpath
  obtain ⟨attr, hattr, rfl⟩ := parsePath_single (parseKeyOperandPath_eq_parsePath hp)
  obtain ⟨name, rfl, rfl⟩ := parseKeyValue_ok hv
  cases expectToken_ok hl
  cases expectToken_ok hc
  cases expectToken_ok hr
  exact ⟨.beginsWith function attr name, by rw [raw, hattr], rfl⟩

theorem parseKeyOperand_ok {left} (h : parseKeyOperand ts = .ok (left, rest)) :
    (∃ name, left = .value (.placeholder name) ∧ ts = .placeholder name :: rest) ∨
      ∃ path, left = .path path ∧ parsePath ts = .ok (path, rest) := by
  unfold parseKeyOperand at h
  split at h
  · cases h
  · obtain ⟨⟨path, _⟩, hp, h⟩ := unbind h
    cases h
    exact .inr ⟨path, rfl, hp⟩
  · obtain ⟨⟨path, _⟩, hp, h⟩ := unbind h
    cases h
    exact .inr ⟨path, rfl, hp⟩
  · cases h
    exact .inl ⟨_, rfl, rfl⟩
  · cases h

theorem parseComparison_ok (h : parseComparison ts = .ok (c, rest)) (hpath : c.path = [a]) :
    ∃ w : WrittenClause, w.raw = c ∧ ts = w.tokens ++ rest := by
  obtain ⟨⟨left, more⟩, hleft, h⟩ := unbind h
  cases more with
  | nil => cases h
  | cons token more =>
    rcases parseKeyOperand_ok hleft with ⟨value, rfl, rfl⟩ | ⟨path, rfl, hp⟩
    · -- the value first: the comparator is kept turned round
      replace h : (parseKeyComparator token >>= fun op => parseKeyOperandPath more >>= fun r =>
          pure (rawCompare r.1 (reverseComparator op) (.placeholder value), r.2)) =
            .ok (c, rest) := h
      simp only [bind_eq_ok] at h
      obtain ⟨op, hop, ⟨path, _⟩, hp, h⟩ := h
      cases h
      rw [rawCompare_path] at hpath
      subst hpath
      obtain ⟨attr, hattr, rfl⟩ := parsePath_single (parseKeyOperandPath_eq_parsePath hp)
      obtain ⟨rfl, -⟩ := parseKeyComparator_ok hop
      exact ⟨.reversed value op attr, by rw [raw, hattr], rfl⟩
    · simp only at h
      split at h
      · rename_i hbetween
        simp only [bind_eq_ok] at h
        obtain ⟨⟨low, _⟩, hlow, _, hand, ⟨high, _⟩, hhigh, h⟩ := h
        cases h
        cases hpath
        obtain ⟨attr, hattr, rfl⟩ := parsePath_single hp
        obtain ⟨lowName, rfl, rfl⟩ := parseKeyValue_ok hlow
        obtain ⟨highName, rfl, rfl⟩ := parseKeyValue_ok hhigh
        cases expectToken_ok hand
        exact ⟨.between attr lowName highName, by rw [raw, hattr], by rw [hbetween]; rfl⟩
      · simp only [bind_eq_ok] at h
        obtain ⟨op, hop, ⟨value, _⟩, hv, h⟩ := h
        cases h
        rw [rawCompare_path] at hpath
        subst hpath
        obtain ⟨attr, hattr, rfl⟩ := parsePath_single hp
        obtain ⟨name, rfl, rfl⟩ := parseKeyValue_ok hv
        obtain ⟨rfl, -⟩ := parseKeyComparator_ok hop
        exact ⟨.compare attr op name, by rw [raw, hattr], rfl⟩

theorem parseKeyClauseInner_ok (h : parseKeyClauseInner ts = .ok (c, rest)) (hpath : c.path = [a]) :
    ∃ w : WrittenClause, w.raw = c ∧ ts = w.tokens ++ rest := by
  unfold parseKeyClauseInner at h
  split at h
  · cases h
  · split at h
    · exact parseBeginsWith_ok h hpath _
    · exact parseComparison_ok h hpath
  · exact parseComparison_ok h hpath

theorem parseKeyClause_ok (h : parseKeyClause ts = .ok (c, rest)) (hpath : c.path = [a]) :
    ∃ w spelled, w.raw = c ∧ SpellsClause w spelled ∧ ts = spelled ++ rest := by
  unfold parseKeyClause at h
  split at h
  · cases h
  · obtain ⟨⟨clause, more⟩, hinner, h⟩ := unbind h
    cases more with
    | nil => cases h
    | cons token more =>
      cases token <;> cases h
      obtain ⟨w, hw, rfl⟩ := parseKeyClauseInner_ok hinner hpath
      exact ⟨w, _, hw, .parens w, by simp⟩
  · obtain ⟨w, hw, hts⟩ := parseKeyClauseInner_ok h hpath
    exact ⟨w, _, hw, .bare w, hts⟩

theorem rejectNestedKeyPath_ok {path} (h : rejectNestedKeyPath path = .ok ()) :
    ∃ a, path = [a] := by
  unfold rejectNestedKeyPath at h
  split at h
  · exact ⟨_, rfl⟩
  · cases h

variable {cs : List RawClause}

/-- The clauses behind a first one that was read are spelled with `AND`s between them all. -/
theorem parseMoreClauses_ok {fuel} (h : parseMoreClauses fuel ts = .ok cs)
    (hpath : ∀ c ∈ cs, rejectNestedKeyPath c.path = .ok ()) {w spelled}
    (hw : SpellsClause w spelled) :
    ∃ ws, cs = ws.map raw ∧ SpellsAnd (w :: ws) (spelled ++ ts) := by
  induction fuel generalizing ts cs w spelled with
  | zero =>
    cases ts with
    | nil =>
      cases h
      exact ⟨[], rfl, by simpa using .single hw⟩
    | cons token ts => cases h
  | succ fuel ih =>
    cases ts with
    | nil =>
      cases h
      exact ⟨[], rfl, by simpa using .single hw⟩
    | cons token ts =>
      rw [parseMoreClauses] at h
      by_cases hand : token = .and
      · subst hand
        obtain ⟨⟨c, rest⟩, hclause, h⟩ := unbind h
        obtain ⟨more, hmore, h⟩ := unbind h
        cases h
        obtain ⟨a, ha⟩ := rejectNestedKeyPath_ok (hpath c (by simp))
        obtain ⟨w', spelled', hraw, hspelled, rfl⟩ := parseKeyClause_ok hclause ha
        obtain ⟨ws, rfl, hws⟩ :=
          ih hmore (fun d hd => hpath d (.tail _ hd)) hspelled
        exact ⟨w' :: ws, by rw [map_cons, hraw], .and hw hws⟩
      · simp [hand] at h

theorem stripOuterParens_eq (tokens) : stripOuterParens tokens = tokens ∨
      tokens = .lParen :: stripOuterParens tokens ++ [.rParen] := by
  unfold stripOuterParens
  split
  · rename_i hparens
    obtain ⟨hlen, hhead, hlast, -⟩ := hparens
    right
    obtain ⟨rest, rfl⟩ := head?_eq_some_iff.mp hhead
    have hne : rest ≠ [] := by
      rintro rfl
      simp at hlen
    have hlast' : rest.getLast hne = .rParen := by
      rw [getLast?_cons, getLast?_eq_some_getLast hne] at hlast
      simpa using hlast
    rw [drop_one, tail_cons, cons_append, ← hlast', dropLast_append_getLast hne]
  · exact .inl rfl

theorem parseClauses_ok (h : parseClauses tokens = .ok cs) :
    ∃ ws, cs = ws.map raw ∧ Spells ws tokens := by
  replace h := ok_of_check h
  obtain ⟨⟨first, rest⟩, hfirst, h⟩ := unbind h
  obtain ⟨more, hmore, h⟩ := unbind h
  obtain ⟨hpaths, h⟩ := check_then_eq_ok.mp h
  cases h
  have hpaths := forM_eq_ok.mp hpaths
  obtain ⟨a, ha⟩ := rejectNestedKeyPath_ok (hpaths first (by simp))
  obtain ⟨w, spelled, hraw, hspelled, hts⟩ := parseKeyClause_ok hfirst ha
  obtain ⟨ws, rfl, hws⟩ :=
    parseMoreClauses_ok hmore (fun c hc => hpaths c (.tail _ hc)) hspelled
  refine ⟨w :: ws, by rw [map_cons, hraw], ?_⟩
  rw [← hts] at hws
  rcases stripOuterParens_eq tokens with heq | heq
  · exact .inl (heq ▸ hws)
  · exact .inr ⟨_, heq, hws⟩

end ExtendDb
