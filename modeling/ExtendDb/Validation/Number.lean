import Mathlib.Tactic.NormNum
import ExtendDb.Theory.DecimalText
import ExtendDb.Error

/-!
# Number validation

`validate_and_normalize_number` accepts an optionally signed decimal with an optional exponent and
returns it without exponent, leading zeros or trailing zeros.  A text is *normal* when it is
returned unchanged.
-/

namespace ExtendDb

open DecimalText List

def maxSignificantDigits : Nat := 38
def maxExponent : Int := 125
def minExponent : Int := -130

def emptyNumericErr : DynamoDbError :=
  .validationException "The parameter cannot be converted to a numeric value"

def numericValueErr (s : String) : DynamoDbError :=
  .validationException ("The parameter cannot be converted to a numeric value: " ++ s)

def tooManyDigitsErr : DynamoDbError :=
  .validationException "Attempting to store more than 38 significant digits in a Number"

def overflowErr : DynamoDbError :=
  .validationException
    "Number overflow. Attempting to store a number with magnitude larger than supported range"

def underflowErr : DynamoDbError :=
  .validationException
    "Number underflow. Attempting to store a number with magnitude smaller than supported range"

def parseI32 (cs : List Char) : Option Int := parseInteger 32 cs

/-- The sign in front of a number text and the text behind it. -/
def stripSign : List Char → Bool × List Char
  | '-' :: rest => (true, rest)
  | '+' :: rest => (false, rest)
  | rest => (false, rest)

def formatPlain (negative : Bool) (digits : List Char) (exp : Int) : List Char :=
  let numDigits : Int := digits.length
  let decimalPos := numDigits + exp
  signText negative ++ if decimalPos ≤ 0 then
      '0' :: '.' :: replicate (-decimalPos).toNat '0' ++ digits
    else if numDigits ≤ decimalPos then
      digits ++ replicate (decimalPos - numDigits).toNat '0'
    else
      digits.take decimalPos.toNat ++ '.' :: digits.drop decimalPos.toNat

/-- The second half of `validate_and_normalize_number`, once the text has been read as
`allDigits * 10^pointOffset`.  The source does the exponent arithmetic in saturating `i64`, which
no text that fits in memory saturates. -/
def normalizeDigits (negative : Bool) (allDigits : List Char) (pointOffset : Int) : Result String :=
  let significant := allDigits.dropWhile (· == '0')
  if significant.isEmpty then
    .ok "0"
  else
    let sigTrimmed := trimTrailing significant
    if sigTrimmed.isEmpty then
      .ok "0"
    else if sigTrimmed.length > maxSignificantDigits then
      .error tooManyDigitsErr
    else
      let trailingZeros := significant.length - sigTrimmed.length
      let exp := pointOffset + trailingZeros
      let magnitudeExp := (sigTrimmed.length : Int) - 1 + exp
      if magnitudeExp > maxExponent then
        .error overflowErr
      else if magnitudeExp < minExponent then
        .error underflowErr
      else if exp < -2 ^ 31 ∨ 2 ^ 31 ≤ exp then
        .error overflowErr
      else
        let result := formatPlain negative sigTrimmed exp
        if negative ∧ result = ['-', '0'] then .ok "0" else .ok (String.ofList result)

def splitExponent (s : String) (rest : List Char) : Result (List Char × Int) :=
  match splitOnce (fun c => c == 'e' || c == 'E') rest with
  | some (mantissa, e) => match parseI32 e with
    | some exp => .ok (mantissa, exp)
    | none => .error (numericValueErr s)
  | none => .ok (rest, 0)

/-- The parts of a mantissa before and behind its point; a missing integer part is zero. -/
def splitPoint (mantissa : List Char) : List Char × List Char :=
  match splitOnce (· == '.') mantissa with
  | some (i, f) => (if i.isEmpty then ['0'] else i, f)
  | none => (mantissa, [])

def splitMantissa (s : String) (mantissa : List Char) : Result (List Char × List Char) :=
  if mantissa.isEmpty || !mantissa.all (fun c => c.isDigit || c == '.') then
    .error (numericValueErr s)
  -- a bare "." has no digit
  else if !mantissa.any Char.isDigit then
    .error (numericValueErr s)
  else if !(splitPoint mantissa).1.all Char.isDigit || !(splitPoint mantissa).2.all Char.isDigit then
    .error (numericValueErr s)
  else
    .ok (splitPoint mantissa)

def validateAndNormalizeNumber (s : String) : Result String := do
  if s.isEmpty then
    throw emptyNumericErr
  let (negative, rest) := stripSign s.toList
  let (mantissa, explicitExp) ← splitExponent s rest
  let (intPart, fracPart) ← splitMantissa s mantissa
  normalizeDigits negative (intPart ++ fracPart) (explicitExp - fracPart.length)

/-- A number text in normal form: validation returns it unchanged. -/
def IsNormal (s : String) : Prop := validateAndNormalizeNumber s = .ok s

instance (s : String) : Decidable (IsNormal s) :=
  inferInstanceAs (Decidable (validateAndNormalizeNumber s = .ok s))

def IsValidNumber (s : String) : Prop := ∃ t, validateAndNormalizeNumber s = .ok t

instance : DecidablePred IsValidNumber := fun s =>
  match h : validateAndNormalizeNumber s with
  | .ok t => .isTrue ⟨t, h⟩
  | .error _ => .isFalse fun ⟨t, ht⟩ => by rw [h] at ht; cases ht

/-! ## The plain format -/

theorem formatPlain_of_nonneg (negative) {digits exp} (hne : digits ≠ []) (hexp : 0 ≤ exp) :
    formatPlain negative digits exp =
      signText negative ++ plain (digits ++ replicate exp.toNat '0') 0 := by
  have hlen := length_pos_of_ne_nil hne
  rw [plain_zero (by simp [hne]), formatPlain, if_neg (by omega), if_pos (by omega),
    show (digits.length : Int) + exp - digits.length = exp by omega]

theorem formatPlain_of_neg (negative digits) {exp} (hexp : exp < 0) :
    formatPlain negative digits exp = signText negative ++ plain digits (-exp).toNat := by
  obtain ⟨k, rfl⟩ : ∃ k : Nat, exp = -(k + 1 : Nat) := ⟨(-exp - 1).toNat, by omega⟩
  rw [show (- -((k + 1 : Nat) : Int)).toNat = k + 1 by omega, formatPlain, plain,
    if_neg (Nat.succ_ne_zero k)]
  by_cases hlen : digits.length ≤ k + 1
  · -- no digit before the point: the padding supplies one zero there
    have hpad : pad digits (k + 1) = '0' :: (replicate (k + 1 - digits.length) '0' ++ digits) := by
      rw [pad, show k + 1 + 1 - digits.length = (k + 1 - digits.length) + 1 by omega,
        replicate_succ, cons_append]
    have hsub : (pad digits (k + 1)).length - (k + 1) = 1 := by
      rw [length_pad]
      omega
    rw [if_pos (by omega), intPart, fracPart, hsub, hpad,
      show (-((digits.length : Int) + -((k + 1 : Nat) : Int))).toNat = k + 1 - digits.length by omega]
    rfl
  · rw [if_neg (by omega), if_neg (by omega), intPart, fracPart, pad_of_lt (by omega),
      show ((digits.length : Int) + -((k + 1 : Nat) : Int)).toNat = digits.length - (k + 1) by omega]

/-- Digits that start and end with something else than zero. -/
structure Significant (t : List Char) : Prop where
  digits : AllDigits t
  head : t.head? ≠ some '0'
  last : t.getLast? ≠ some '0'
  ne_nil : t ≠ []

structure InRange (t : List Char) (exp : Int) : Prop where
  length_le : t.length ≤ maxSignificantDigits
  le_max : (t.length : Int) - 1 + exp ≤ maxExponent
  min_le : minExponent ≤ (t.length : Int) - 1 + exp

/-- Every number text is a sign and a plain text; this is the one behind `formatPlain`. -/
theorem formatPlain_eq_plain (negative) {t} (hne : t ≠ []) (exp) : formatPlain negative t exp =
      signText negative ++ plain (t ++ replicate exp.toNat '0') (-exp).toNat := by
  by_cases hexp : 0 ≤ exp
  · rw [formatPlain_of_nonneg negative hne hexp, show (-exp).toNat = 0 by omega]
  · rw [formatPlain_of_neg negative t (by omega), show exp.toNat = 0 by omega]
    simp

/-! ## Number texts -/

inductive IsSign : List Char → Bool → Prop
  | none : IsSign [] false
  | plus : IsSign ['+'] false
  | minus : IsSign ['-'] true

/-- A text with the digits in front of its point and behind it. -/
inductive IsMantissa : List Char → List Char → List Char → Prop
  | whole (int : List Char) : IsMantissa int int []
  | point (int frac : List Char) : IsMantissa (int ++ '.' :: frac) int frac

inductive IsExponent : List Char → Int → Prop
  | none : IsExponent [] 0
  | some {c ds e} (hc : c = 'e' ∨ c = 'E') (he : parseI32 ds = some e) : IsExponent (c :: ds) e

structure NumberParts where
  negative : Bool
  int : List Char
  frac : List Char
  exp : Int

/-- The text is a sign, digits around at most one point and an exponent. -/
structure SpellsNumber (s : String) (p : NumberParts) : Prop where
  text : ∃ sign mantissa exponent, s.toList = sign ++ (mantissa ++ exponent) ∧
    IsSign sign p.negative ∧ IsMantissa mantissa p.int p.frac ∧ IsExponent exponent p.exp
  digits : AllDigits (p.int ++ p.frac)
  ne_nil : p.int ++ p.frac ≠ []

/-! ## Reading a text -/

variable {c : Char}

theorem stripSign_signText (negative) (hc : c.isDigit = true) (cs) :
    stripSign (signText negative ++ c :: cs) = (negative, c :: cs) := by
  cases negative with
  | true => rfl
  | false =>
    unfold stripSign
    split
    · rename_i heq
      cases heq
      exact absurd hc (by decide)
    · rename_i heq
      cases heq
      exact absurd hc (by decide)
    · rfl

theorem IsMantissa.mem {m int frac} (h : IsMantissa m int frac) (hd : AllDigits (int ++ frac))
    (hc : c ∈ m) : c.isDigit = true ∨ c = '.' := by
  cases h with
  | whole => exact .inl (hd c (mem_append_left _ hc))
  | point =>
    rcases mem_append.mp hc with hc | hc
    · exact .inl (hd c (mem_append_left _ hc))
    · rcases mem_cons.mp hc with rfl | hc
      · exact .inr rfl
      · exact .inl (hd c (mem_append_right _ hc))

theorem IsMantissa.ne_nil {m int frac} (h : IsMantissa m int frac) (hne : int ++ frac ≠ []) :
    m ≠ [] := by
  cases h with
  | whole => rwa [append_nil] at hne
  | point => simp

theorem IsSign.stripSign_eq {sign rest negative} (h : IsSign sign negative)
    (hc : c.isDigit = true ∨ c = '.') : stripSign (sign ++ c :: rest) = (negative, c :: rest) := by
  cases h with
  | plus | minus => rfl
  | none =>
    rcases hc with hc | rfl
    · exact stripSign_signText false hc rest
    · rfl

theorem exponentMark_eq_false (h : c.isDigit = true ∨ c = '.') :
    (c == 'e' || c == 'E') = false := by
  rw [Bool.or_eq_false_iff, beq_eq_false_iff_ne, beq_eq_false_iff_ne]
  constructor <;>
  · rintro rfl
    exact absurd h (by decide)

variable {mantissa : List Char}

theorem IsExponent.splitExponent_eq {exponent e} (h : IsExponent exponent e)
    (hm : ∀ c ∈ mantissa, c.isDigit = true ∨ c = '.') (s) :
    splitExponent s (mantissa ++ exponent) = .ok (mantissa, e) := by
  have hplain : ∀ c ∈ mantissa, (c == 'e' || c == 'E') = false := fun c hc =>
    exponentMark_eq_false (hm c hc)
  unfold splitExponent
  cases h with
  | none => rw [append_nil, splitOnce_eq_none hplain]
  | some hc he =>
    rw [splitOnce_append _ hplain (by rcases hc with rfl | rfl <;> rfl)]
    simp [he]

theorem IsMantissa.splitPoint_eq {m int frac} (h : IsMantissa m int frac)
    (hd : AllDigits (int ++ frac)) (hne : int ++ frac ≠ []) :
    splitPoint m = (if int.isEmpty then ['0'] else int, frac) := by
  have hint : ∀ c ∈ int, (c == '.') = false := fun c hc =>
    point_ne_of_isDigit (hd c (mem_append_left _ hc))
  unfold splitPoint
  cases h with
  | whole =>
    rw [append_nil] at hne
    simp [splitOnce_eq_none hint, hne]
  | point => rw [splitOnce_append _ hint rfl]

theorem IsMantissa.splitMantissa_eq {m int frac} (h : IsMantissa m int frac)
    (hd : AllDigits (int ++ frac)) (hne : int ++ frac ≠ []) (s) :
    splitMantissa s m = .ok (if int.isEmpty then ['0'] else int, frac) := by
  have hempty : m.isEmpty = false := by simpa using h.ne_nil hne
  have hall : m.all (fun c => c.isDigit || c == '.') = true := by
    rw [all_eq_true]
    intro c hc
    simpa using h.mem hd hc
  have hany : m.any Char.isDigit = true := by
    obtain ⟨c, cs, hcs⟩ := exists_cons_of_ne_nil hne
    have hc : c ∈ int ++ frac := by simp [hcs]
    refine any_eq_true.mpr ⟨c, ?_, hd c hc⟩
    cases h with
    | whole => simpa using hc
    | point =>
      rcases mem_append.mp hc with hc | hc
      · exact mem_append_left _ hc
      · exact mem_append_right _ (.tail _ hc)
  have hint : (if int.isEmpty then ['0'] else int).all Char.isDigit = true := by
    split
    · rfl
    · exact all_eq_true.mpr fun c hc => hd c (mem_append_left _ hc)
  have hfrac : frac.all Char.isDigit = true :=
    all_eq_true.mpr fun c hc => hd c (mem_append_right _ hc)
  rw [splitMantissa, h.splitPoint_eq hd hne, hempty, hall, hany, hint, hfrac]
  rfl

/-- A missing integer part counts as a zero, which changes nothing. -/
theorem normalizeDigits_missing (negative) (int frac : List Char) (offset) :
    normalizeDigits negative ((if int.isEmpty then ['0'] else int) ++ frac) offset =
      normalizeDigits negative (int ++ frac) offset := by
  cases int with
  | nil => simp [normalizeDigits]
  | cons c cs => rfl

variable {s : String}

theorem SpellsNumber.stripSign_eq {p} (h : SpellsNumber s p) :
    ∃ mantissa exponent, stripSign s.toList = (p.negative, mantissa ++ exponent) ∧
      IsMantissa mantissa p.int p.frac ∧ IsExponent exponent p.exp := by
  obtain ⟨⟨sign, mantissa, exponent, htext, hsign, hmantissa, hexponent⟩, hd, hne⟩ := h
  obtain ⟨c, cs, hcs⟩ := exists_cons_of_ne_nil (hmantissa.ne_nil hne)
  refine ⟨mantissa, exponent, ?_, hmantissa, hexponent⟩
  rw [htext, hcs]
  exact hsign.stripSign_eq (hmantissa.mem hd (by simp [hcs]))

theorem SpellsNumber.validate_eq {p} (h : SpellsNumber s p) : validateAndNormalizeNumber s =
      normalizeDigits p.negative (p.int ++ p.frac) (p.exp - p.frac.length) := by
  obtain ⟨mantissa, exponent, hstrip, hmantissa, hexponent⟩ := h.stripSign_eq
  have hempty : s.isEmpty = false := by
    rw [String.isEmpty_eq_false_iff]
    rintro rfl
    have hnil : mantissa ++ exponent = [] := (congrArg Prod.snd hstrip).symm
    exact hmantissa.ne_nil h.ne_nil (append_eq_nil_iff.mp hnil).1
  simp only [validateAndNormalizeNumber, hempty, hstrip, Bool.false_eq_true, if_false,
    hexponent.splitExponent_eq fun _ hc => hmantissa.mem h.digits hc,
    hmantissa.splitMantissa_eq h.digits h.ne_nil, bind, Except.bind]
  exact normalizeDigits_missing ..

theorem splitOnce_eq_some {f cs xs ys} (h : splitOnce f cs = some (xs, ys)) :
    ∃ c, f c = true ∧ cs = xs ++ c :: ys := by
  induction cs generalizing xs with
  | nil => cases h
  | cons d ds ih =>
    unfold splitOnce at h
    split at h
    · rename_i hd
      cases h
      exact ⟨d, hd, rfl⟩
    obtain ⟨⟨as, bs⟩, hrest, heq⟩ := Option.map_eq_some_iff.mp h
    cases heq
    obtain ⟨c, hc, rfl⟩ := ih hrest
    exact ⟨c, hc, rfl⟩

theorem exists_isSign (cs) :
    ∃ sign, IsSign sign (stripSign cs).1 ∧ cs = sign ++ (stripSign cs).2 := by
  unfold stripSign
  split
  · exact ⟨['-'], .minus, rfl⟩
  · exact ⟨['+'], .plus, rfl⟩
  · exact ⟨[], .none, rfl⟩

theorem splitExponent_ok {rest e} (h : splitExponent s rest = .ok (mantissa, e)) :
    ∃ exponent, IsExponent exponent e ∧ rest = mantissa ++ exponent := by
  unfold splitExponent at h
  split at h
  · rename_i m ds hsplit
    split at h
    · rename_i exp hexp
      cases h
      obtain ⟨c, hc, rfl⟩ := splitOnce_eq_some hsplit
      exact ⟨c :: ds, .some (by simpa using hc) hexp, rfl⟩
    · cases h
  · cases h
    exact ⟨[], .none, (append_nil _).symm⟩

variable {parts : List Char × List Char}

theorem splitMantissa_ok
    (h : splitMantissa s mantissa = .ok parts) : AllDigits (parts.1 ++ parts.2) := by
  unfold splitMantissa at h
  iterate 3 (split at h; · cases h)
  rename_i hdigits
  cases h
  simp only [Bool.or_eq_true, Bool.not_eq_true', not_or, Bool.not_eq_false, all_eq_true] at hdigits
  exact .append hdigits.1 hdigits.2

theorem exists_isMantissa {m} (h : splitMantissa s m = .ok parts) :
    ∃ int frac, IsMantissa m int frac ∧ AllDigits (int ++ frac) ∧ int ++ frac ≠ [] := by
  have hdigits := splitMantissa_ok h
  unfold splitMantissa at h
  iterate 3 (split at h; · cases h)
  rename_i hany _
  cases h
  unfold splitPoint at hdigits
  cases hsplit : splitOnce (· == '.') m with
  | none =>
    rw [hsplit] at hdigits
    refine ⟨m, [], .whole m, hdigits, ?_⟩
    rintro hnil
    simp at hnil
    simp [hnil] at hany
  | some halves =>
    obtain ⟨int, frac⟩ := halves
    rw [hsplit] at hdigits
    obtain ⟨c, hc, rfl⟩ := splitOnce_eq_some hsplit
    obtain rfl : c = '.' := by simpa using hc
    refine ⟨int, frac, .point int frac, ?_, ?_⟩
    · cases int with
      | nil => exact fun c hc => hdigits c (.tail _ hc)
      | cons d ds => exact hdigits
    · intro hnil
      obtain ⟨rfl, rfl⟩ := append_eq_nil_iff.mp hnil
      simp at hany

theorem exists_spellsNumber {t} (h : validateAndNormalizeNumber s = .ok t) :
    ∃ p, SpellsNumber s p := by
  unfold validateAndNormalizeNumber at h
  by_cases hempty : s.isEmpty = true
  · simp [hempty, bind, Except.bind] at h
  simp only [hempty] at h
  obtain ⟨sign, hsign, hcs⟩ := exists_isSign s.toList
  cases hexp : splitExponent s (stripSign s.toList).2 with
  | error e => simp [hexp, bind, Except.bind] at h
  | ok me =>
    obtain ⟨exponent, hexponent, hrest⟩ := splitExponent_ok hexp
    cases hman : splitMantissa s me.1 with
    | error e => simp [hexp, hman, bind, Except.bind] at h
    | ok parts =>
      obtain ⟨int, frac, hmantissa, hd, hne⟩ := exists_isMantissa hman
      refine ⟨⟨_, int, frac, me.2⟩, ⟨sign, me.1, exponent, ?_, hsign, hmantissa, hexponent⟩, hd, hne⟩
      rw [← hrest]
      exact hcs

theorem isSign_signText (negative) : IsSign (signText negative) negative := by
  cases negative with
  | true => exact .minus
  | false => exact .none

theorem spellsNumber_plain (negative) {ds} (hd : AllDigits ds) (scale) :
    SpellsNumber (String.ofList (signText negative ++ plain ds scale))
      ⟨negative, intPart ds scale, fracPart ds scale, 0⟩ where
  text := by
    refine ⟨_, plain ds scale, [], by simp, isSign_signText negative, ?_, .none⟩
    unfold plain
    split
    · rename_i hscale
      subst hscale
      rw [eq_nil_of_length_eq_zero (length_fracPart ds 0), append_nil]
      exact .whole _
    · exact .point _ _
  digits := (hd.intPart scale).append (hd.fracPart scale)
  ne_nil := append_ne_nil_of_left_ne_nil (intPart_ne_nil ds scale) _

theorem validateAndNormalizeNumber_plain (negative) {ds} (hd : AllDigits ds) (scale) :
    validateAndNormalizeNumber (String.ofList (signText negative ++ plain ds scale)) =
      normalizeDigits negative (pad ds scale) (-(scale : Int)) := by
  rw [(spellsNumber_plain negative hd scale).validate_eq]
  simp [intPart_append_fracPart, length_fracPart]

end ExtendDb
