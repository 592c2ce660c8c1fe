import ExtendDb.Engine.BatchWriteItem
import ExtendDb.Types.WireFormat
import ExtendDb.Validation.Normalizer

/-!
# LeadingKeys of batches and transactions

The partition key values that authorization reads from the raw body of BatchWriteItem and
TransactWriteItems, next to the values the engine deserializes from the same body.
-/

namespace ExtendDb

open DecimalText Fallible Journal List Option OrdMap JsonValue

/-! ### Key texts -/

/-- All digits of a decimal without its leading zeros. -/
def javaCoefficient (digits : List Char) : List Char :=
  match digits.dropWhile (· == '0') with
  | [] => ['0']
  | coefficient => coefficient

def javaPrint (negative : Bool) (coefficient : List Char) (scale : Int) : List Char :=
  let adjusted := (coefficient.length : Int) - 1 - scale
  let sign := if negative && coefficient ≠ ['0'] then ['-'] else []
  sign ++ if 0 ≤ scale ∧ -6 ≤ adjusted then
      if scale = 0 then coefficient
      else if scale < coefficient.length then
        coefficient.take (coefficient.length - scale.toNat) ++
          '.' :: coefficient.drop (coefficient.length - scale.toNat)
      else '0' :: '.' :: List.replicate (scale.toNat - coefficient.length) '0' ++ coefficient
    else
      coefficient.take 1 ++
        (if (coefficient.drop 1).isEmpty then [] else '.' :: coefficient.drop 1) ++
        'E' :: (if 0 ≤ adjusted then ['+'] else []) ++ (toString adjusted).toList

/-- Java's text of a number text that has passed validation. -/
def javaDecimalString (raw : String) : Option String :=
  let (negative, rest) := stripSign raw.toList
  let split := match splitOnce (fun c => c == 'e' || c == 'E') rest with
    | some (mantissa, e) => (parseInteger 64 e).map (mantissa, ·)
    | none => some (rest, 0)
  split.map fun (mantissa, exponent) =>
    let (intPart, fracPart) := (splitOnce (· == '.') mantissa).getD (mantissa, [])
    String.ofList (javaPrint negative (javaCoefficient (intPart ++ fracPart))
      (fracPart.length - exponent))

inductive NumberForm where
  | normalized | decimal
deriving DecidableEq

namespace JsonValue

def asObject : JsonValue → Option (List (String × JsonValue))
  | .object entries => some entries
  | _ => none

def get (value : JsonValue) (key : String) : Option JsonValue :=
  value.asObject.bind (get? · key)

end JsonValue

def extractTypedValue (typeVal : JsonValue) (form : NumberForm) : Option String :=
  match typeVal.asObject.bind List.head? with
  | none => none
  | some (typeTag, inner) =>
    let raw := inner.asStr.getD ""
    if typeTag = "N" then
      match validateAndNormalizeNumber raw with
      | .error _ => none
      | .ok normalized => match form with
        | .normalized => some normalized
        | .decimal => javaDecimalString raw
    else some raw

def pkFromMap (map : JsonValue) (pkAttr : String) (form : NumberForm) : Option String :=
  (map.get pkAttr).bind (extractTypedValue · form)

/-! ### Targets -/

def batchRequestMap (req : JsonValue) : Option JsonValue :=
  ((req.get "PutRequest").bind (·.get "Item")).or ((req.get "DeleteRequest").bind (·.get "Key"))

def batchTableKeys (body : JsonValue) (pkAttr : String) : Option (List String) :=
  body.asArray.bind fun reqs =>
    let out := reqs.filterMap fun req => (batchRequestMap req).bind (pkFromMap · pkAttr .decimal)
    if out.isEmpty then none else some out

structure AuthzTarget where
  action : String
  table : String
  leadingKeys : Option (List String)
deriving DecidableEq

def transactSubs : List (String × String × String) :=
  [("Put", "PutItem", "Item"), ("Delete", "DeleteItem", "Key"), ("Update", "UpdateItem", "Key"),
    ("ConditionCheck", "ConditionCheckItem", "Key")]

def transactTarget (pkAttrOf : String → Option String) (entry : JsonValue)
    (sub : String × String × String) : Option AuthzTarget :=
  (entry.get sub.1).bind fun op => ((op.get "TableName").bind asStr).map fun table =>
    ⟨sub.2.1, table, ((pkAttrOf table).bind fun pk =>
      (op.get sub.2.2).bind (pkFromMap · pk .decimal)).map fun v => [v]⟩

def transactTargets (pkAttrOf : String → Option String) (entries : List JsonValue) :
    List AuthzTarget :=
  (entries.flatMap fun entry => transactSubs.filterMap (transactTarget pkAttrOf entry)).eraseDups

/-! ### What the engine reads -/

section

variable (base64 : Base64Engine) (texts : CrateTexts)

def decodeItem (map : JsonValue) : Except String Item :=
  match map with
  | .object entries => entries.mapM fun e => (deserialize base64 texts e.2).map (e.1, ·)
  | other => .error (texts.invalidType other)

/-- A struct with a derived deserializer: its fields, and how many of them an array has to give. -/
structure WireStruct where
  fields : List String
  required : Nat

/-- A derived struct is read from an object by names and from an array by places. -/
def WireStruct.field (shape : WireStruct) (value : JsonValue) (name : String) :
    Except String (Option JsonValue) :=
  match value with
  | .object entries => .ok (get? entries name)
  | .array values =>
    if shape.required ≤ values.length ∧ values.length ≤ shape.fields.length then
      .ok values[shape.fields.idxOf name]?
    else .error (texts.custom "invalid length")
  | other => .error (texts.invalidType other)

def WireStruct.requiredField (shape : WireStruct) (value : JsonValue) (name : String) :
    Except String JsonValue := do
  match ← shape.field texts value name with
  | some v => .ok v
  | none => .error (texts.custom ("missing field " ++ name))

def batchSubs : List (String × String) := [("PutRequest", "Item"), ("DeleteRequest", "Key")]

def decodeMember (req : JsonValue) (sub : String × String) : Except String (Option Item) := do
  match ← WireStruct.field texts ⟨batchSubs.map Prod.fst, 2⟩ req sub.1 with
  | none | some .null => .ok none
  | some member =>
    let map ← WireStruct.requiredField texts ⟨[sub.2], 1⟩ member sub.2
    (decodeItem base64 texts map).map some

def decodeWriteRequest (req : JsonValue) : Except String WriteRequest := do
  let put ← decodeMember base64 texts req ("PutRequest", "Item")
  let delete ← decodeMember base64 texts req ("DeleteRequest", "Key")
  pure ⟨put, delete⟩

/-- The struct of a member of a transaction.  Its last three fields have defaults. -/
def transactStruct (sub : String × String × String) : WireStruct :=
  let update := if sub.1 = "Update" then ["UpdateExpression"] else []
  ⟨[sub.2.2, "TableName"] ++ update ++ ["ConditionExpression", "ExpressionAttributeNames",
    "ExpressionAttributeValues", "ReturnValuesOnConditionCheckFailure"], 3 + update.length⟩

def decodeTransactMember (entry : JsonValue) (sub : String × String × String) :
    Except String (Option (String × Item)) := do
  match ← WireStruct.field texts ⟨["ConditionCheck", "Put", "Delete", "Update"], 4⟩ entry sub.1 with
  | none | some .null => .ok none
  | some op =>
    let map ← (transactStruct sub).requiredField texts op sub.2.2
    let item ← decodeItem base64 texts map
    match ← (transactStruct sub).requiredField texts op "TableName" with
    | .string table => .ok (some (table, item))
    | other => .error (texts.invalidType other)

/-- The text names the key value: the string itself, base64 of the bytes, or what Java prints for a
number text that the engine normalizes to the number. -/
def KeyText (text : String) : AttributeValue → Prop
  | .s s => text = s
  | .n n => ∃ raw, javaDecimalString raw = some text ∧ validateAndNormalizeNumber raw = .ok n
  | .b bytes => base64.decode text = some bytes
  | _ => False

end

def NumberValid (v : AttributeValue) : Prop := ∀ n, v = .n n → IsValidNumber n

/-! ### Numbers -/

theorem dropWhile_javaCoefficient (digits) :
    (javaCoefficient digits).dropWhile (· == '0') = digits.dropWhile (· == '0') := by
  unfold javaCoefficient
  split
  · rename_i hnil
    rw [hnil]
    rfl
  · exact dropWhile_idempotent ..

variable {negative : Bool}

theorem normalizeDigits_congr {ds es} (offset)
    (h : ds.dropWhile (· == '0') = es.dropWhile (· == '0')) :
    normalizeDigits negative ds offset = normalizeDigits negative es offset := by
  unfold normalizeDigits
  rw [h]

theorem allDigits_javaCoefficient {digits} (h : AllDigits digits) :
    AllDigits (javaCoefficient digits) := by
  unfold javaCoefficient
  split
  · intro c hc
    rw [mem_singleton.mp hc]
    rfl
  · exact fun c hc => h c ((dropWhile_sublist _).subset hc)

theorem parseInteger_widen {cs v} (h : parseInteger 32 cs = some v) :
    parseInteger 64 cs = some v := by
  unfold parseInteger at h ⊢
  rw [filter_eq_some_iff] at h ⊢
  refine ⟨h.1, ?_⟩
  have hbounds := h.2
  simp only [decide_eq_true_eq] at hbounds ⊢
  constructor
  · have := hbounds.1
    omega
  · have := hbounds.2
    omega

theorem isNormal_of_normalizeDigits {ds offset r} (hd : AllDigits ds)
    (h : normalizeDigits negative ds offset = .ok r) : IsNormal r := by
  rw [isNormal_iff]
  rcases normalizeDigits_ok hd h with hzero | ⟨t, exp, ht, hrange, heq⟩
  · exact .inl hzero
  · exact .inr ⟨negative, t, exp, ht, hrange, heq⟩

theorem SpellsNumber.javaDecimalString_eq {raw p} (h : SpellsNumber raw p) :
    javaDecimalString raw = some (String.ofList (javaPrint p.negative
      (javaCoefficient (p.int ++ p.frac)) (p.frac.length - p.exp))) := by
  obtain ⟨mantissa, exponent, hstrip, hmantissa, hexponent⟩ := h.stripSign_eq
  have hplain : ∀ c ∈ mantissa, (c == 'e' || c == 'E') = false := fun c hc =>
    exponentMark_eq_false (hmantissa.mem h.digits hc)
  have hint : ∀ c ∈ p.int, (c == '.') = false := fun c hc =>
    point_ne_of_isDigit (h.digits c (mem_append_left _ hc))
  have hhalves : (splitOnce (· == '.') mantissa).getD (mantissa, []) = (p.int, p.frac) := by
    generalize p.int = int, p.frac = frac at hmantissa hint
    cases hmantissa with
    | whole => rw [splitOnce_eq_none hint, getD_none]
    | point => rw [splitOnce_append _ hint rfl, getD_some]
  unfold javaDecimalString
  generalize p.exp = e at hexponent
  cases hexponent with
  | none => simp [hstrip, splitOnce_eq_none hplain, hhalves]
  | @some c ds e hc he =>
    have hmark : (c == 'e' || c == 'E') = true := by simpa using hc
    simp [hstrip, splitOnce_append ds hplain hmark, parseInteger_widen he, hhalves]

theorem javaCoefficient_congr {ds es} (h : ds.dropWhile (· == '0') = es.dropWhile (· == '0')) :
    javaCoefficient ds = javaCoefficient es := by
  rw [javaCoefficient, h, javaCoefficient]

theorem javaCoefficient_cases (digits) :
    digits.dropWhile (· == '0') = [] ∧ javaCoefficient digits = ['0'] ∨
    digits.dropWhile (· == '0') ≠ [] ∧ javaCoefficient digits = digits.dropWhile (· == '0') := by
  unfold javaCoefficient
  split
  · exact .inl ⟨‹_›, rfl⟩
  · exact .inr ⟨‹_›, rfl⟩

theorem javaPrint_plain {c scale} (hne : c ≠ []) (hscale : 0 ≤ scale)
    (hadjusted : -6 ≤ (c.length : Int) - 1 - scale) :
    javaPrint negative c scale = signText (negative && c ≠ ['0']) ++ plain c scale.toNat := by
  have hlen := length_pos_of_ne_nil hne
  have hplain := formatPlain_eq_plain (negative && c ≠ ['0']) hne (-scale)
  rw [show (-scale).toNat = 0 by omega, replicate_zero, append_nil, Int.neg_neg] at hplain
  rw [← hplain, formatPlain, javaPrint]
  simp only [hscale, hadjusted, and_self, if_true]
  congr 1
  by_cases hzero : scale = 0
  · rw [if_pos hzero, if_neg (by omega), if_pos (by omega)]
    simp [hzero]
  by_cases hlt : scale < c.length
  · rw [if_neg hzero, if_pos hlt, if_neg (by omega), if_neg (by omega),
      show c.length - scale.toNat = (c.length + -scale).toNat by omega]
  · rw [if_neg hzero, if_neg hlt, if_pos (by omega),
      show scale.toNat - c.length = (-(c.length + -scale)).toNat by omega]

theorem spellsNumber_javaPrint (negative) {c} (hd : AllDigits c) (hne : c ≠ []) (scale : Int)
    (hfits : -2 ^ 31 ≤ (c.length : Int) - 1 - scale ∧ (c.length : Int) - 1 - scale < 2 ^ 31) :
    ∃ p, SpellsNumber (String.ofList (javaPrint negative c scale)) p ∧
      p.negative = (negative && c ≠ ['0']) ∧
      (p.int ++ p.frac).dropWhile (· == '0') = c.dropWhile (· == '0') ∧
      p.frac.length - p.exp = scale := by
  by_cases hplain : 0 ≤ scale ∧ -6 ≤ (c.length : Int) - 1 - scale
  · rw [javaPrint_plain hne hplain.1 hplain.2]
    refine ⟨_, spellsNumber_plain _ hd _, rfl, ?_, ?_⟩
    · rw [intPart_append_fracPart, pad]
      simp
    · simp [length_fracPart, hplain.1]
  · obtain ⟨d, ds, rfl⟩ := exists_cons_of_ne_nil hne
    refine ⟨⟨negative && d :: ds ≠ ['0'], [d], ds, ((d :: ds).length : Int) - 1 - scale⟩,
      ⟨⟨signText (negative && d :: ds ≠ ['0']), d :: if ds.isEmpty then [] else '.' :: ds,
        'E' :: _, ?_, isSign_signText _, ?_, .some (.inr rfl)
          ((parseInteger_toString 32 _).trans
            (if_pos (decide_eq_true hfits)))⟩, hd, hne⟩,
      rfl, rfl, ?_⟩
    · rw [String.toList_ofList, javaPrint, if_neg hplain]
      rw [append_assoc, cons_append]
      rfl
    · cases ds with
      | nil => exact .whole _
      | cons e es => exact .point [d] _
    · simp

/-- The decimal that a text writes: a whole number and how many of its digits are behind the point. -/
def WritesDecimal (s : String) (unscaled scale : Int) : Prop :=
  ∃ p, SpellsNumber s p ∧ scale = p.frac.length - p.exp ∧
    unscaled = (if p.negative then -1 else 1) * value (p.int ++ p.frac)

theorem normalizeDigits_magnitude {ds offset r} (hd : AllDigits ds)
    (h : normalizeDigits negative ds offset = .ok r) (hne : ds.dropWhile (· == '0') ≠ []) :
    minExponent ≤ (ds.dropWhile (· == '0')).length - 1 + offset ∧
      (ds.dropWhile (· == '0')).length - 1 + offset ≤ maxExponent := by
  obtain ⟨z, k, hds⟩ := exists_zeros ds
  by_cases hnil : trimTrailing (ds.dropWhile (· == '0')) = []
  · rw [hnil, nil_append, replicate_append_replicate] at hds
    exact absurd (by rw [hds]; simp) hne
  · have ht := trimTrailing_dropWhile_significant hd hnil
    generalize trimTrailing (ds.dropWhile (· == '0')) = t at ht hds
    rw [hds, normalizeDigits_significant negative ht] at h
    rw [hds, ht.dropWhile_zeros, length_append, length_replicate]
    obtain ⟨-, hmax, hmin⟩ := h.1
    constructor <;> omega

/-- The exponent of a zero is its scale, and one below the range of validation is not read. -/
theorem not_spellsNumber_javaPrint_zero {scale : Int} (hscale : 2 ^ 31 < scale) (p) :
    ¬ SpellsNumber (String.ofList (javaPrint negative ['0'] scale)) p := by
  intro h
  obtain ⟨mantissa, exponent, hstrip, hmantissa, hexponent⟩ := h.stripSign_eq
  have hprint : javaPrint negative ['0'] scale = '0' :: 'E' ::
      ((if 0 ≤ -scale then ['+'] else []) ++ (toString (-scale)).toList) := by
    have hform : ¬ (0 ≤ scale ∧ -6 ≤ ((['0'].length : Nat) : Int) - 1 - scale) := by
      rw [length_singleton]
      omega
    rw [javaPrint, if_neg hform]
    simp
  rw [String.toList_ofList, hprint] at hstrip
  have hplain : ∀ c ∈ mantissa, (c == 'e' || c == 'E') = false := fun c hc =>
    exponentMark_eq_false (hmantissa.mem h.digits hc)
  have hsplit : splitOnce (fun c => c == 'e' || c == 'E') (mantissa ++ exponent) = some (['0'], _) :=
    (congrArg (splitOnce _) (congrArg Prod.snd hstrip)).symm.trans
      (@splitOnce_append _ 'E' ['0'] _ (by simp) (by simp))
  generalize p.exp = e at hexponent
  cases hexponent with
  | none => simp [splitOnce_eq_none hplain] at hsplit
  | @some c ds e hc he =>
    rw [splitOnce_append ds hplain (by simpa using hc)] at hsplit
    cases hsplit
    rw [parseI32, parseInteger_toString, filter_eq_some_iff] at he
    have hrange := he.2
    cases he.1
    simp only [decide_eq_true_eq] at hrange
    omega

theorem dropWhile_eq_nil_of_value {ds} (hd : AllDigits ds) (h : value ds = 0) :
    ds.dropWhile (· == '0') = [] := by
  induction ds with
  | nil => rfl
  | cons c cs ih =>
    rw [value_cons, Nat.add_eq_zero_iff, Nat.mul_eq_zero] at h
    have hc : digitValue c = digitValue '0' := h.1.resolve_left (by positivity)
    rw [digitValue_inj (hd c (.head _)) rfl hc, dropWhile_cons_of_pos rfl]
    exact ih (fun d hd' => hd d (.tail _ hd')) h.2

/-- What becomes of an accepted number text: its Java text writes the same decimal and is accepted as
the same number, or it is a zero whose exponent leaves the range of validation. -/
theorem SpellsNumber.java_text {raw p n} (hp : SpellsNumber raw p)
    (h : validateAndNormalizeNumber raw = .ok n) :
    (value (p.int ++ p.frac) = 0 → (p.frac.length : Int) - p.exp ≤ 2 ^ 31) ∧
      (∃ q, SpellsNumber (String.ofList (javaPrint p.negative (javaCoefficient (p.int ++ p.frac))
          (p.frac.length - p.exp))) q ∧ (q.frac.length : Int) - q.exp = p.frac.length - p.exp ∧
        q.negative = (p.negative && javaCoefficient (p.int ++ p.frac) ≠ ['0']) ∧
        (q.int ++ q.frac).dropWhile (· == '0') = (p.int ++ p.frac).dropWhile (· == '0')) ∨
    value (p.int ++ p.frac) = 0 ∧ 2 ^ 31 < (p.frac.length : Int) - p.exp ∧ n = "0" ∧
      javaCoefficient (p.int ++ p.frac) = ['0'] := by
  rw [hp.validate_eq] at h
  have hexp := hp.exp_range
  have hsame := dropWhile_javaCoefficient (p.int ++ p.frac)
  have hdigits := allDigits_javaCoefficient hp.digits
  rcases javaCoefficient_cases (p.int ++ p.frac) with ⟨hzero, hc⟩ | ⟨hne, hc⟩
  · have hvalue : value (p.int ++ p.frac) = 0 := by
      rw [← value_dropWhile, hzero]
      rfl
    by_cases hscale : (p.frac.length : Int) - p.exp ≤ 2 ^ 31
    · obtain ⟨q, hq, hsign, hqdigits, hqscale⟩ := spellsNumber_javaPrint p.negative hdigits
        (by rw [hc]; exact cons_ne_nil _ _) (p.frac.length - p.exp)
        (by rw [hc, length_singleton]; omega)
      exact .inl ⟨fun _ => hscale, q, hq, hqscale, hsign, hqdigits.trans hsame⟩
    · rw [normalizeDigits, hzero] at h
      cases h
      exact .inr ⟨hvalue, by omega, rfl, hc⟩
  · have hmagnitude := normalizeDigits_magnitude hp.digits h hne
    rw [minExponent, maxExponent] at hmagnitude
    obtain ⟨q, hq, hsign, hqdigits, hqscale⟩ := spellsNumber_javaPrint p.negative hdigits
      (by rwa [hc]) (p.frac.length - p.exp) (by rw [hc]; omega)
    refine .inl ⟨fun hvalue => ?_, q, hq, hqscale, hsign, hqdigits.trans hsame⟩
    exact absurd (dropWhile_eq_nil_of_value hp.digits hvalue) hne

/-- The sign is lost only with a zero. -/
theorem signed_of_java_sign {p q : NumberParts}
    (hsign : q.negative = (p.negative && javaCoefficient (p.int ++ p.frac) ≠ ['0'])) :
    q.negative = p.negative ∨ (p.int ++ p.frac).dropWhile (· == '0') = [] := by
  by_cases hc : javaCoefficient (p.int ++ p.frac) = ['0']
  · exact .inr (by rw [← dropWhile_javaCoefficient, hc]; rfl)
  · exact .inl (by simp [hsign, hc])

theorem SpellsNumber.validate_java {raw text p q} (hp : SpellsNumber raw p)
    (hq : SpellsNumber text q) (hscale : (q.frac.length : Int) - q.exp = p.frac.length - p.exp)
    (hsign : q.negative = (p.negative && javaCoefficient (p.int ++ p.frac) ≠ ['0']))
    (hall : (q.int ++ q.frac).dropWhile (· == '0') = (p.int ++ p.frac).dropWhile (· == '0')) :
    validateAndNormalizeNumber text = validateAndNormalizeNumber raw := by
  rw [hq.validate_eq, hp.validate_eq, normalizeDigits_congr _ hall,
    show q.exp - q.frac.length = p.exp - p.frac.length by omega]
  rcases signed_of_java_sign hsign with hs | hzero
  · rw [hs]
  · simp [normalizeDigits, hzero]

/-- Java's text of an accepted number writes the same decimal, is accepted as the same number and
prints as itself, exactly when the exponent of a zero stays in the range of validation. -/
theorem javaDecimalString_keeps (raw n : String) (h : validateAndNormalizeNumber raw = .ok n) :
    (∃ unscaled scale, WritesDecimal raw unscaled scale) ∧
    ∀ unscaled scale, WritesDecimal raw unscaled scale → ∃ text, javaDecimalString raw = some text ∧
      (WritesDecimal text unscaled scale ∧ validateAndNormalizeNumber text = .ok n ∧
        javaDecimalString text = some text ↔ (unscaled = 0 → scale ≤ 2 ^ 31)) := by
  obtain ⟨p, hp⟩ := exists_spellsNumber h
  refine ⟨⟨_, _, p, hp, rfl, rfl⟩, fun _ _ ⟨p, hp, hscale, hunscaled⟩ => ?_⟩
  subst hscale hunscaled
  refine ⟨_, hp.javaDecimalString_eq, ?_⟩
  have hunscaled : (if p.negative then -1 else 1) * (value (p.int ++ p.frac) : Int) = 0 ↔
      value (p.int ++ p.frac) = 0 := by
    rw [Int.mul_eq_zero]
    split <;> simp
  rw [hunscaled]
  rcases hp.java_text h with ⟨hscale, q, hq, hqscale, hsign, hall⟩ | ⟨hzero, hscale, -, hc⟩
  · refine iff_of_true ⟨⟨q, hq, hqscale.symm, ?_⟩, ?_, ?_⟩ hscale
    · rw [← value_dropWhile (p.int ++ p.frac), ← value_dropWhile (q.int ++ q.frac), hall]
      rcases signed_of_java_sign hsign with hs | hzero
      · rw [hs]
      · rw [hzero]
        exact (Int.mul_zero _).trans (Int.mul_zero _).symm
    · exact h ▸ hp.validate_java hq hqscale hsign hall
    · rw [hq.javaDecimalString_eq, hqscale, javaCoefficient_congr hall, hsign]
      simp [javaPrint]
  · refine iff_of_false (fun ⟨⟨q, hq, _⟩, _⟩ => ?_) fun hle => absurd (hle hzero) (by omega)
    rw [hc] at hq
    exact not_spellsNumber_javaPrint_zero hscale q hq

theorem javaDecimalString_keeps_scale : WritesDecimal "-1.50E+9" (-150) (-7) ∧
      validateAndNormalizeNumber "-1.50E+9" = .ok "-1500000000" ∧
      javaDecimalString "-1.50E+9" = some "-1.50E+9" := by
  have hwrites : WritesDecimal "-1.50E9" (-150) (-7) :=
    ⟨⟨true, ['1'], ['5', '0'], 9⟩, ⟨⟨['-'], ['1', '.', '5', '0'], ['E', '9'], rfl, .minus,
      .point ['1'] ['5', '0'], .some (.inr rfl) (by decide)⟩,
      by simp [AllDigits], by decide⟩, rfl, rfl⟩
  obtain ⟨text, htext, hkeeps⟩ := (javaDecimalString_keeps "-1.50E9" "-1500000000" (by decide)).2 _ _
    hwrites
  cases htext.symm.trans (show javaDecimalString "-1.50E9" = some "-1.50E+9" by decide)
  exact hkeeps.mpr nofun

theorem javaDecimalString_rejected : validateAndNormalizeNumber "0.0E-2147483648" = .ok "0" ∧
      javaDecimalString "0.0E-2147483648" = some "0E-2147483649" ∧
      ¬ IsValidNumber "0E-2147483649" := by
  decide

variable {v : AttributeValue}

theorem KeyText.numberValid {base64 text} (h : KeyText base64 text v) : NumberValid v := by
  rintro n rfl
  obtain ⟨raw, -, hraw⟩ := h
  obtain ⟨p, hp⟩ := exists_spellsNumber hraw
  rw [hp.validate_eq] at hraw
  exact (isNormal_of_normalizeDigits hp.digits hraw).isValidNumber

theorem eq_of_javaDecimalString {raw raw' text n n'} (h : javaDecimalString raw = some text)
    (h' : javaDecimalString raw' = some text) (hn : validateAndNormalizeNumber raw = .ok n)
    (hn' : validateAndNormalizeNumber raw' = .ok n') : n = n' := by
  obtain ⟨p, hp⟩ := exists_spellsNumber hn
  obtain ⟨p', hp'⟩ := exists_spellsNumber hn'
  have htext := Option.some.inj (hp.javaDecimalString_eq.symm.trans h)
  have htext' := Option.some.inj (hp'.javaDecimalString_eq.symm.trans h')
  rcases hp.java_text hn with ⟨-, q, hq, hscale, hsign, hall⟩ | ⟨-, hscale, hzero, hc⟩ <;>
    rcases hp'.java_text hn' with ⟨-, q', hq', hscale', hsign', hall'⟩ | ⟨-, hscale', hzero', hc'⟩
  · have hvalid := (hp.validate_java hq hscale hsign hall).trans hn
    have hvalid' := (hp'.validate_java hq' hscale' hsign' hall').trans hn'
    rw [htext] at hvalid
    rw [htext', hvalid] at hvalid'
    exact Except.ok.inj hvalid'
  · rw [htext, ← htext', hc'] at hq
    exact absurd hq (not_spellsNumber_javaPrint_zero hscale' q)
  · rw [htext', ← htext, hc] at hq'
    exact absurd hq' (not_spellsNumber_javaPrint_zero hscale q')
  · rw [hzero, hzero']

theorem KeyText.unique {base64 text w} {ty : ScalarAttributeType} (hv : ty.matches v = true)
    (hw : ty.matches w = true) (h : KeyText base64 text v) (h' : KeyText base64 text w) : v = w := by
  cases ty <;> cases v <;> cases hv <;> cases w <;> cases hw
  · exact congrArg _ (h.symm.trans h')
  · obtain ⟨raw, htext, hn⟩ := h
    obtain ⟨raw', htext', hn'⟩ := h'
    exact congrArg _ (eq_of_javaDecimalString htext htext' hn hn')
  · exact congrArg _ (Option.some.inj (h.symm.trans h'))

/-! ### One value -/

section

variable {base64 : Base64Engine} {texts : CrateTexts}

/-- The extraction names the key value that the engine reads, unless that is no number. -/
theorem extractTypedValue_spec {value} (hdecode : deserialize base64 texts value = .ok v)
    {ty : ScalarAttributeType} (hty : ty.matches v = true) :
    (∃ text, extractTypedValue value .decimal = some text ∧ KeyText base64 text v) ∨
      extractTypedValue value .decimal = none ∧ ¬ NumberValid v := by
  unfold deserialize at hdecode
  split at hdecode
  · rename_i entries
    unfold visitMap at hdecode
    split at hdecode
    · cases hdecode
    rename_i tag inner rest
    split at hdecode
    · have hhead : (object ((tag, inner) :: rest)).asObject.bind head? = some (tag, inner) := rfl
      unfold extractTypedValue
      rw [hhead]
      unfold fromDescriptor at hdecode
      split at hdecode
      · split at hdecode
        · cases hdecode
          exact .inl ⟨_, rfl, rfl⟩
        · cases hdecode
      · split at hdecode
        · rename_i raw
          cases hdecode
          cases hnumber : validateAndNormalizeNumber raw with
          | error e =>
            -- an invalid text stays as it is, and is no number
            have hraw : normalizedOrRaw raw = raw := by rw [normalizedOrRaw, hnumber]
            refine .inr ⟨by simp [asStr, hnumber], fun hvalid => ?_⟩
            obtain ⟨t, ht⟩ := hvalid _ rfl
            rw [hraw, hnumber] at ht
            cases ht
          | ok n =>
            obtain ⟨p, hp⟩ := exists_spellsNumber hnumber
            refine .inl ⟨_, ?_, raw, hp.javaDecimalString_eq, by rw [normalizedOrRaw, hnumber]⟩
            simp only [asStr, getD_some, hnumber]
            exact hp.javaDecimalString_eq
        · cases hdecode
      · split at hdecode
        · rename_i b64 hstr
          obtain ⟨bytes, hbytes, hv⟩ := map_eq_ok.mp hdecode
          subst hv
          refine .inl ⟨b64, by simp [hstr], ?_⟩
          unfold decodeBase64 at hbytes
          split at hbytes
          · rename_i heq
            cases hbytes
            exact heq
          · cases hbytes
        · cases hdecode
      -- the other types are no key types
      · unfold stringSet at hdecode
        obtain ⟨_, _, rfl⟩ := map_eq_ok.mp hdecode
        cases ty <;> cases hty
      · unfold numberSet at hdecode
        obtain ⟨_, _, rfl⟩ := map_eq_ok.mp hdecode
        cases ty <;> cases hty
      · unfold binarySet at hdecode
        obtain ⟨_, _, rfl⟩ := map_eq_ok.mp hdecode
        cases ty <;> cases hty
      · split at hdecode
        · cases hdecode
          cases ty <;> cases hty
        · cases hdecode
      · split at hdecode
        · cases hdecode
          cases ty <;> cases hty
        all_goals cases hdecode
      · split at hdecode
        · obtain ⟨_, _, rfl⟩ := map_eq_ok.mp hdecode
          cases ty <;> cases hty
        · cases hdecode
      · split at hdecode
        · obtain ⟨_, _, rfl⟩ := map_eq_ok.mp hdecode
          cases ty <;> cases hty
        · cases hdecode
      · cases hdecode
    · cases hdecode
  · cases hdecode

variable {item : Item} {map : JsonValue}

/-- The engine reads an attribute exactly where the body has it. -/
theorem decodeItem_get (h : decodeItem base64 texts map = .ok item) (name) :
    map.get name = none ∧ get? item name = none ∨ ∃ value v, map.get name = some value ∧
      get? item name = some v ∧ deserialize base64 texts value = .ok v := by
  unfold decodeItem at h
  split at h
  · rename_i entries
    change get? entries name = none ∧ _ ∨ ∃ value v, get? entries name = some value ∧ _
    induction entries generalizing item with
    | nil =>
      cases h
      exact .inl ⟨rfl, rfl⟩
    | cons entry rest ih =>
      rw [mapM_cons] at h
      simp only [bind_eq_ok] at h
      obtain ⟨first, hfirst, others, hothers, h⟩ := h
      cases h
      obtain ⟨w, hw, rfl⟩ := map_eq_ok.mp hfirst
      simp only [get?]
      split
      · exact .inr ⟨_, _, rfl, rfl, hw⟩
      · exact ih hothers
  · cases h

/-- The key attribute of a decoded item is extracted under its name, or is no number. -/
theorem pkFromMap_spec (h : decodeItem base64 texts map = .ok item) {pkAttr}
    {ty : ScalarAttributeType} (hty : ∀ v, get? item pkAttr = some v → ty.matches v = true) :
    (∃ text v, pkFromMap map pkAttr .decimal = some text ∧ get? item pkAttr = some v ∧
      KeyText base64 text v) ∨
    pkFromMap map pkAttr .decimal = none ∧ ∀ v, get? item pkAttr = some v → ¬ NumberValid v := by
  rw [pkFromMap]
  rcases decodeItem_get h pkAttr with ⟨hnone, hget⟩ | ⟨value, v, hvalue, hget, hdecode⟩
  · rw [hnone, hget]
    exact .inr ⟨rfl, nofun⟩
  · rw [hvalue, hget]
    rcases extractTypedValue_spec hdecode (hty v hget) with ⟨text, htext, hnames⟩ | ⟨hnone, hnot⟩
    · exact .inl ⟨text, v, htext, rfl, hnames⟩
    · exact .inr ⟨hnone, fun w hw => Option.some.inj hw ▸ hnot⟩

/-- The member is an object in an object, which is where the extraction looks for it. -/
def WrittenAsObject (value : JsonValue) (name : String) : Prop :=
  ∃ entries, value.get name = some (.object entries)

theorem eq_object_of_get {value found : JsonValue} {name} (h : value.get name = some found) :
    ∃ entries, value = .object entries ∧ get? entries name = some found := by
  cases value with
  | object entries => exact ⟨entries, rfl, h⟩
  | _ => cases h

theorem requiredField_object {shape : WireStruct} {fields name v} :
    shape.requiredField texts (.object fields) name = .ok v ↔ get? fields name = some v := by
  rw [WireStruct.requiredField, WireStruct.field, ok_bind]
  cases get? fields name <;> simp

theorem decodeMember_object {req} (sub) {entries r} (hobject : req.get sub.1 = some (.object entries))
    (h : decodeMember base64 texts req sub = .ok r) :
    ∃ map item, get? entries sub.2 = some map ∧ decodeItem base64 texts map = .ok item ∧
      r = some item := by
  obtain ⟨fields, rfl, hget⟩ := eq_object_of_get hobject
  simp only [decodeMember, WireStruct.field, hget, ok_bind] at h
  obtain ⟨map, hmap, h⟩ := unbind h
  obtain ⟨item, hitem, hr⟩ := map_eq_ok.mp h
  exact ⟨map, item, requiredField_object.mp hmap, hitem, hr.symm⟩

theorem decodeTransactMember_object {entry sub fields r}
    (hobject : entry.get sub.1 = some (.object fields))
    (h : decodeTransactMember base64 texts entry sub = .ok r) :
    ∃ map item table, get? fields sub.2.2 = some map ∧ decodeItem base64 texts map = .ok item ∧
      get? fields "TableName" = some (.string table) ∧ r = some (table, item) := by
  obtain ⟨entries, rfl, hget⟩ := eq_object_of_get hobject
  simp only [decodeTransactMember, WireStruct.field, hget, ok_bind] at h
  obtain ⟨map, hmap, h⟩ := unbind h
  obtain ⟨item, hitem, h⟩ := unbind h
  obtain ⟨table, htable, h⟩ := unbind h
  cases table with
  | string table =>
    cases h
    exact ⟨map, item, table, requiredField_object.mp hmap, hitem, requiredField_object.mp htable,
      rfl⟩
  | _ => cases h

end

/-! ### Requests -/

section

variable (base64 : Base64Engine) (texts : CrateTexts)

/-- A member of the batch that is written in this way puts or deletes the key value. -/
def BatchTouches (written : JsonValue → String → Prop) (reqs : List JsonValue) (pkAttr : String)
    (v : AttributeValue) : Prop :=
  ∃ req ∈ reqs, ∃ sub ∈ batchSubs, written req sub.1 ∧ ∃ item,
    decodeMember base64 texts req sub = .ok (some item) ∧ get? item pkAttr = some v

def TransactTouches (written : JsonValue → String → Prop) (pkAttrOf : String → Option String)
    (entries : List JsonValue) (action table : String) (v : AttributeValue) : Prop :=
  ∃ entry ∈ entries, ∃ sub ∈ transactSubs, sub.2.1 = action ∧ written entry sub.1 ∧ ∃ item pkAttr,
    decodeTransactMember base64 texts entry sub = .ok (some (table, item)) ∧
    pkAttrOf table = some pkAttr ∧ get? item pkAttr = some v

def AnyForm (_ : JsonValue) (_ : String) : Prop := True

end

section

variable {base64 : Base64Engine} {texts : CrateTexts}

theorem BatchTouches.anyForm {written reqs pkAttr v}
    (h : BatchTouches base64 texts written reqs pkAttr v) :
    BatchTouches base64 texts AnyForm reqs pkAttr v :=
  let ⟨req, hreq, sub, hsub, _, h⟩ := h
  ⟨req, hreq, sub, hsub, trivial, h⟩

theorem TransactTouches.anyForm {written pkAttrOf entries action table v}
    (h : TransactTouches base64 texts written pkAttrOf entries action table v) :
    TransactTouches base64 texts AnyForm pkAttrOf entries action table v :=
  let ⟨entry, hentry, sub, hsub, haction, _, h⟩ := h
  ⟨entry, hentry, sub, hsub, haction, trivial, h⟩

theorem mem_batchTableKeys {reqs pkAttr text} :
    (∃ keys, batchTableKeys (.array reqs) pkAttr = some keys ∧ text ∈ keys) ↔
      text ∈ reqs.filterMap fun req => (batchRequestMap req).bind (pkFromMap · pkAttr .decimal) := by
  rw [batchTableKeys, asArray, bind_some]
  generalize reqs.filterMap _ = out
  cases out <;> simp

theorem transactTarget_eq {pkAttrOf entry sub action table text} :
    transactTarget pkAttrOf entry sub = some ⟨action, table, some [text]⟩ ↔
      sub.2.1 = action ∧ ∃ fields, entry.get sub.1 = some (.object fields) ∧
        get? fields "TableName" = some (.string table) ∧ ∃ pkAttr map, pkAttrOf table = some pkAttr ∧
        get? fields sub.2.2 = some map ∧ pkFromMap map pkAttr .decimal = some text := by
  constructor
  · intro h
    obtain ⟨op, hop, h⟩ := Option.bind_eq_some_iff.mp h
    obtain ⟨name, hname, h⟩ := Option.map_eq_some_iff.mp h
    obtain ⟨value, hvalue, hstr⟩ := Option.bind_eq_some_iff.mp hname
    obtain ⟨fields, rfl, hfield⟩ := eq_object_of_get hvalue
    cases value <;> cases hstr
    obtain ⟨haction, rfl, hkeys⟩ := AuthzTarget.mk.inj h
    obtain ⟨v, hv, hlist⟩ := Option.map_eq_some_iff.mp hkeys
    cases hlist
    obtain ⟨pkAttr, hpk, hv⟩ := Option.bind_eq_some_iff.mp hv
    obtain ⟨map, hmap, hv⟩ := Option.bind_eq_some_iff.mp hv
    exact ⟨haction, fields, hop, hfield, pkAttr, map, hpk, hmap, hv⟩
  · rintro ⟨rfl, fields, hop, htable, pkAttr, map, hpk, hmap, hv⟩
    have hmap' : (object fields).get sub.2.2 = some map := hmap
    have htable' : (object fields).get "TableName" = some (.string table) := htable
    simp [transactTarget, hop, htable', asStr, hpk, hmap', hv]

theorem decodeMember_ok {req wr sub} (h : decodeWriteRequest base64 texts req = .ok wr)
    (hsub : sub ∈ batchSubs) : ∃ r, decodeMember base64 texts req sub = .ok r := by
  obtain ⟨put, hput, h⟩ := unbind h
  obtain ⟨delete, hdelete, -⟩ := unbind h
  rcases List.mem_pair.mp hsub with rfl | rfl
  · exact ⟨put, hput⟩
  · exact ⟨delete, hdelete⟩

theorem batchRequestMap_eq {req wr} (hdecode : decodeWriteRequest base64 texts req = .ok wr)
    (hshape : validateWriteRequestShape wr = .ok ()) {map} : batchRequestMap req = some map ↔
      ∃ sub ∈ batchSubs, ∃ entries, req.get sub.1 = some (.object entries) ∧
        get? entries sub.2 = some map := by
  have hget {name field : String} : (req.get name).bind (·.get field) = some map ↔
      ∃ entries, req.get name = some (.object entries) ∧ get? entries field = some map := by
    rw [Option.bind_eq_some_iff]
    constructor
    · rintro ⟨member, hmember, hmap⟩
      obtain ⟨entries, rfl, hmap⟩ := eq_object_of_get hmap
      exact ⟨entries, hmember, hmap⟩
    · exact fun ⟨entries, hmember, hmap⟩ => ⟨_, hmember, hmap⟩
  simp only [batchSubs, List.exists_mem_cons_iff, List.not_mem_nil, false_and, exists_false, or_false,
    ← hget]
  rw [batchRequestMap, Option.or_eq_some_iff]
  refine or_congr_right ⟨And.right, fun hdelete => ⟨?_, hdelete⟩⟩
  -- with a DeleteRequest there is no PutRequest
  obtain ⟨put, hput, hdecode⟩ := unbind hdecode
  obtain ⟨delete, hdelete', hdecode⟩ := unbind hdecode
  cases hdecode
  obtain ⟨entries, hobject, -⟩ := hget.mp hdelete
  obtain ⟨_, item, -, -, rfl⟩ := decodeMember_object ("DeleteRequest", "Key") hobject hdelete'
  cases hbind : (req.get "PutRequest").bind (·.get "Item") with
  | none => rfl
  | some found =>
    obtain ⟨member, hmember, hfound⟩ := Option.bind_eq_some_iff.mp hbind
    obtain ⟨fields, rfl, -⟩ := eq_object_of_get hfound
    obtain ⟨_, _, -, -, rfl⟩ := decodeMember_object ("PutRequest", "Item") hmember hput
    cases hshape

end

def noTexts : CrateTexts := ⟨fun _ => "", fun _ => "", id⟩

def numberKeyTable : TableKeyInfo := { singleKeyTable with attributeDefinitions := [⟨"pk", .n⟩] }

def numberTableContext : OperationContext (List (String × Item)) :=
  { singleTableContext with tableKeyInfo := fun _ => .ok numberKeyTable }

def numberItem (n : String) : JsonValue := .object [("pk", .object [("N", .string n)])]

def numberPut (n : String) : JsonValue :=
  .object [("PutRequest", .object [("Item", numberItem n)])]

def arrayPut (n : String) : JsonValue := .object [("PutRequest", .array [numberItem n])]

end ExtendDb
