import ExtendDb.BigDecimal.Value
import ExtendDb.BackupFormat.KeyOrder

/-!
# Order-preserving number keys

SQLite keeps a number sort key in a text column.  `encode_orderable_number` writes the sign class,
a biased exponent and the digits so that the byte order of the texts is the order of the numbers.
-/

namespace ExtendDb

open DecimalText Utf8 BigDecimal KeyOrder OrdMap

/-- Exponent bias, wide enough for every exponent a supported number has. -/
def expBias : Int := 100000
def expWidth : Nat := 6
/-- Sorts above every digit. -/
def negTerminator : Char := ':'

def bigIntText (i : Int) : List Char := signText (i < 0) ++ Nat.toDigits 10 i.natAbs

def encodeOrderableNumber (bd : BigDecimalCrate) (value : BigDecimal) : String :=
  if value.isZero then "1"
  else
    let negative := bd.cmp value .zero == .lt
    let magnitude := bd.normalized value.abs
    let digits := bigIntText magnitude.mantissa
    let exponent := (digits.length : Int) - magnitude.scale
    if negative then
      String.ofList ('0' :: zeroPadded expWidth (expBias - exponent) ++
        digits.map complementDigit ++ [negTerminator])
    else
      String.ofList ('2' :: zeroPadded expWidth (expBias + exponent) ++ digits)

/-! ## The written form -/

def orderText (negative : Bool) (digits : List Char) (exponent : Int) : List Char :=
  if negative then
    '0' :: (zeroPadded expWidth (expBias - exponent) ++
      (digits.map complementDigit ++ [negTerminator]))
  else '2' :: (zeroPadded expWidth (expBias + exponent) ++ digits)

def ExponentFits (e : Int) : Prop := -expBias ≤ e ∧ e < expBias

/-- Greater numbers have greater texts, and their negatives have smaller ones. -/
theorem orderText_lt {v w ds es e f} (hv : IsScientific v ds e) (hw : IsScientific w es f)
    (he : ExponentFits e) (hf : ExponentFits f) (h : v < w) :
    orderText false ds e < orderText false es f ∧ orderText true es f < orderText true ds e := by
  have hbias : expBias = 100000 := rfl
  obtain ⟨hlo, hhi⟩ := he
  obtain ⟨hlo', hhi'⟩ := hf
  rcases hv.lt hw h with hlt | ⟨rfl, hlt⟩
  · constructor
    all_goals
      apply List.Lex.cons
      exact zeroPadded_append_lt (by omega) (by omega) (by rw [expWidth]; omega) ..
  · exact ⟨.cons (List.append_left_lt hlt), .cons (List.append_left_lt
      (complement_append_lt hv.digits hw.digits (by decide) hlt))⟩

theorem BigDecimal.Supported.exponentFits {d : BigDecimal} (h : d.Supported) {ds e}
    (hform : IsScientific |d.value| ds e) : ExponentFits e := by
  have hbias : expBias = 100000 := rfl
  have hmin : minExponent = -130 := rfl
  have hmax : maxExponent = 125 := rfl
  have hten : (1 : ℚ) < 10 := by norm_num
  rcases h.magnitude with hzero | ⟨hlo, hhi⟩
  · exact absurd hform.pos (by simp [hzero])
  · have hlt := (zpow_lt_zpow_iff_right₀ hten).mp (hlo.trans_lt hform.lt_pow)
    have hlt' := (zpow_lt_zpow_iff_right₀ hten).mp (hform.pow_le.trans_lt hhi)
    exact ⟨by omega, by omega⟩

theorem encodeOrderableNumber_of_zero {bd d} (h : d.value = 0) :
    (encodeOrderableNumber bd d).toList = ['1'] := by
  have hzero : d.isZero = true := by
    rw [isZero, beq_iff_eq]
    exact value_eq_zero_iff.mp h
  rw [encodeOrderableNumber, if_pos hzero]
  rfl

section

variable {bd : BigDecimalCrate} (hbd : bd.Documented)
include hbd

theorem cmp_zero_eq_lt_iff (d) : (bd.cmp d .zero == .lt) = true ↔ d.value < 0 := by
  have hcompares := exactCmp_compares d .zero
  rw [beq_iff_eq, hbd.cmp_eq, hcompares.eq_lt]
  simp [BigDecimal.value, zero]

variable {d : BigDecimal}

theorem normalized_abs_spec (hne : d.value ≠ 0) :
    0 < (bd.normalized d.abs).mantissa ∧ (bd.normalized d.abs).mantissa % 10 ≠ 0 ∧
      (bd.normalized d.abs).value = |d.value| := by
  have hne' : d.abs.mantissa ≠ 0 := by
    rw [ne_eq, ← value_eq_zero_iff, value_abs]
    exact abs_ne_zero.mpr hne
  have hvalue := (hbd.value_normalized hne').trans d.value_abs
  refine ⟨?_, (hbd.normalized_eq _ hne').1, hvalue⟩
  have hnonneg : ¬(bd.normalized d.abs).value < 0 := by
    rw [hvalue]
    exact (abs_nonneg _).not_gt
  have hnonzero : (bd.normalized d.abs).value ≠ 0 := by
    rw [hvalue]
    exact abs_ne_zero.mpr hne
  rw [value_neg_iff] at hnonneg
  rw [ne_eq, value_eq_zero_iff] at hnonzero
  omega

/-- What is written for a number other than zero: its magnitude as `0.digits × 10^exponent`. -/
theorem encodeOrderableNumber_of_ne_zero (hne : d.value ≠ 0) :
    ∃ digits exponent, IsScientific |d.value| digits exponent ∧
      (encodeOrderableNumber bd d).toList = orderText (d.value < 0) digits exponent := by
  obtain ⟨hpos, -, hvalue⟩ := normalized_abs_spec hbd hne
  have hform := isScientific_of_pos hpos
  rw [hvalue] at hform
  refine ⟨_, _, hform, ?_⟩
  have hzero : d.isZero = false := by
    rw [isZero, beq_eq_false_iff_ne]
    exact value_eq_zero_iff.not.mp hne
  have hdigits : bigIntText (bd.normalized d.abs).mantissa =
      Nat.toDigits 10 (bd.normalized d.abs).mantissa.natAbs := by
    simp [bigIntText, signText, hpos.not_gt]
  have hneg : (bd.cmp d .zero == .lt) = decide (d.value < 0) := by
    rw [Bool.eq_iff_iff, cmp_zero_eq_lt_iff hbd, decide_eq_true_eq]
  simp only [encodeOrderableNumber, hzero, hdigits, hneg, orderText, Bool.false_eq_true, if_false]
  split <;> simp

theorem encodeOrderableNumber_congr {a b} (h : a.value = b.value) :
    encodeOrderableNumber bd a = encodeOrderableNumber bd b := by
  by_cases hne : a.value = 0
  · rw [← String.toList_inj, encodeOrderableNumber_of_zero hne,
      encodeOrderableNumber_of_zero (h ▸ hne)]
  have hzero : a.isZero = b.isZero := by
    rw [Bool.eq_iff_iff, isZero, isZero, beq_iff_eq, beq_iff_eq,
      ← value_eq_zero_iff, ← value_eq_zero_iff, h]
  have hneg : (bd.cmp a .zero == .lt) = (bd.cmp b .zero == .lt) := by
    rw [Bool.eq_iff_iff, cmp_zero_eq_lt_iff hbd, cmp_zero_eq_lt_iff hbd, h]
  obtain ⟨-, ha, hva⟩ := normalized_abs_spec hbd hne
  obtain ⟨-, hb, hvb⟩ := normalized_abs_spec hbd (h ▸ hne)
  have hmagnitude : bd.normalized a.abs = bd.normalized b.abs :=
    eq_of_value_eq ha hb (by rw [hva, hvb, h])
  rw [encodeOrderableNumber, encodeOrderableNumber, hzero, hneg, hmagnitude]

theorem encodeOrderableNumber_of_neg (hd : d.Supported) (h : d.value < 0) :
    ∃ digits exponent, IsScientific (-d.value) digits exponent ∧ ExponentFits exponent ∧
      (encodeOrderableNumber bd d).toList = orderText true digits exponent := by
  obtain ⟨digits, exponent, hform, htext⟩ := encodeOrderableNumber_of_ne_zero hbd h.ne
  refine ⟨digits, exponent, ?_, hd.exponentFits hform, ?_⟩
  · rwa [abs_of_neg h] at hform
  · rwa [decide_eq_true h] at htext

theorem encodeOrderableNumber_of_pos (hd : d.Supported) (h : 0 < d.value) :
    ∃ digits exponent, IsScientific d.value digits exponent ∧ ExponentFits exponent ∧
      (encodeOrderableNumber bd d).toList = orderText false digits exponent := by
  obtain ⟨digits, exponent, hform, htext⟩ := encodeOrderableNumber_of_ne_zero hbd h.ne'
  refine ⟨digits, exponent, ?_, hd.exponentFits hform, ?_⟩
  · rwa [abs_of_pos h] at hform
  · rwa [decide_eq_false h.not_gt] at htext

theorem encodeOrderableNumber_lt {a b} (ha : a.Supported) (hb : b.Supported) (h : a.value < b.value) :
    (encodeOrderableNumber bd a).toList < (encodeOrderableNumber bd b).toList := by
  rcases lt_trichotomy a.value 0 with hna | hza | hpa
  · obtain ⟨ds, e, hform, hfits, htext⟩ := encodeOrderableNumber_of_neg hbd ha hna
    rw [htext]
    rcases lt_trichotomy b.value 0 with hnb | hzb | hpb
    · obtain ⟨es, f, hform', hfits', htext'⟩ := encodeOrderableNumber_of_neg hbd hb hnb
      rw [htext']
      exact (orderText_lt hform' hform hfits' hfits (neg_lt_neg h)).2
    · rw [encodeOrderableNumber_of_zero hzb]
      exact .rel (by decide)
    · obtain ⟨es, f, -, -, htext'⟩ := encodeOrderableNumber_of_pos hbd hb hpb
      rw [htext']
      exact .rel (by decide)
  · obtain ⟨es, f, -, -, htext'⟩ := encodeOrderableNumber_of_pos hbd hb (hza ▸ h)
    rw [encodeOrderableNumber_of_zero hza, htext']
    exact .rel (by decide)
  · obtain ⟨ds, e, hform, hfits, htext⟩ := encodeOrderableNumber_of_pos hbd ha hpa
    obtain ⟨es, f, hform', hfits', htext'⟩ := encodeOrderableNumber_of_pos hbd hb (hpa.trans h)
    rw [htext, htext']
    exact (orderText_lt hform hform' hfits hfits' h).1

theorem compareBytes_encodeOrderableNumber {a b} (ha : a.Supported) (hb : b.Supported) :
    compareBytes (encodeOrderableNumber bd a) (encodeOrderableNumber bd b) =
      compare a.value b.value := by
  apply (compareBytes_compares ..).inj
  have hvalues := (compare_iff a.value b.value).mp rfl
  cases hcmp : compare a.value b.value <;> rw [hcmp] at hvalues
  · exact encodeOrderableNumber_lt hbd ha hb hvalues
  · exact congrArg String.toList (encodeOrderableNumber_congr hbd hvalues)
  · exact encodeOrderableNumber_lt hbd hb ha hvalues

theorem compare_eq_compareBytes (base64) {order : KeyOrder} {name x y}
    (hrange : order.range = some (name, .n)) (hx : order.validateKeyItem x = .ok ())
    (hy : order.validateKeyItem y = .ok ())
    (hhash : get? x order.hash.1 = get? y order.hash.1) :
    ∃ s t a b, get? x name = some (.n s) ∧ get? y name = some (.n t) ∧
      bd.parse s = some a ∧ bd.parse t = some b ∧
      order.compare bd base64 x y =
        .ok (compareBytes (encodeOrderableNumber bd a) (encodeOrderableNumber bd b)) := by
  have hmem : (name, .n) ∈ order.attributes := by
    simp [attributes, hrange]
  obtain ⟨v, hxn, hv⟩ := validateKeyItem_ok hx hmem
  obtain ⟨w, hyn, hw⟩ := validateKeyItem_ok hy hmem
  obtain ⟨s, rfl, hs⟩ := checkKeyValue_number hv
  obtain ⟨t, rfl, ht⟩ := checkKeyValue_number hw
  obtain ⟨a, hparse, ha⟩ := hbd.parse_supported hs
  obtain ⟨b, hparse', hb⟩ := hbd.parse_supported ht
  obtain ⟨h, hxh, hh⟩ := validateKeyItem_ok hx (List.mem_cons_self ..)
  obtain ⟨text, htext⟩ := hashText_ok base64 hxh hh
  have htext' : hashText base64 y order.hash = .ok text := by
    rw [← htext, hashText, hashText, hhash]
  have hself : compareBytes text text = .eq := (compareBytes_compares text text).eq_eq.mpr rfl
  have hcmp : bd.cmp a b =
      compareBytes (encodeOrderableNumber bd a) (encodeOrderableNumber bd b) := by
    rw [compareBytes_encodeOrderableNumber hbd ha hb, hbd.cmp_eq]
    exact ((compare_iff ..).mpr (exactCmp_compares a b)).symm
  simp [KeyOrder.compare, htext, htext', hself, hrange, hxn, hyn, KeyOrder.parseNumber, hparse,
    hparse', hcmp]

end

/-- The text of a number sort key is an order isomorphism: over all supported decimals the byte
order of the texts is the numeric order, equal texts are equal numbers, and the order of the
backup format on keys that differ only in a number sort key is the byte order of those texts. -/
theorem encodeOrderableNumber_order (bd : BigDecimalCrate) (hbd : bd.Documented) :
    (∀ a b : BigDecimal, a.Supported → b.Supported →
      compareBytes (encodeOrderableNumber bd a) (encodeOrderableNumber bd b) =
        compare a.value b.value ∧
      (encodeOrderableNumber bd a = encodeOrderableNumber bd b ↔ a.value = b.value)) ∧
    (∀ (base64 : Base64Engine) (order : KeyOrder) (name : String) (x y : Item),
      order.range = some (name, .n) → order.validateKeyItem x = .ok () →
      order.validateKeyItem y = .ok () →
      get? x order.hash.1 = get? y order.hash.1 →
      ∃ s t a b, get? x name = some (.n s) ∧ get? y name = some (.n t) ∧
        bd.parse s = some a ∧ bd.parse t = some b ∧
        order.compare bd base64 x y =
          .ok (compareBytes (encodeOrderableNumber bd a) (encodeOrderableNumber bd b))) := by
  refine ⟨fun a b ha hb => ⟨compareBytes_encodeOrderableNumber hbd ha hb, fun heq => ?_,
    encodeOrderableNumber_congr hbd⟩, fun base64 order name x y => compare_eq_compareBytes hbd base64⟩
  -- different numbers are ordered one way or the other, and so are their texts
  rcases lt_trichotomy a.value b.value with hlt | heq' | hgt
  · exact absurd (congrArg String.toList heq) (encodeOrderableNumber_lt hbd ha hb hlt).ne
  · exact heq'
  · exact absurd (congrArg String.toList heq) (encodeOrderableNumber_lt hbd hb ha hgt).ne'

/-- `1.5` and `-100`, and two keys with these sort keys. -/
theorem encodeOrderableNumber_order_fifteen_tenths :
    compareBytes (encodeOrderableNumber .reference ⟨15, 1⟩)
        (encodeOrderableNumber .reference ⟨-100, 0⟩) =
      compare (value ⟨15, 1⟩) (value ⟨-100, 0⟩) ∧
    ∃ s t a b, get? [("pk", .s "p"), ("sk", .n "1.5")] "sk" = some (AttributeValue.n s) ∧
      get? [("pk", .s "p"), ("sk", .n "-100")] "sk" = some (AttributeValue.n t) ∧
      BigDecimalCrate.reference.parse s = some a ∧ BigDecimalCrate.reference.parse t = some b ∧
      compare .reference .standard ⟨("pk", .s), some ("sk", .n)⟩
          [("pk", .s "p"), ("sk", .n "1.5")] [("pk", .s "p"), ("sk", .n "-100")] =
        .ok (compareBytes (encodeOrderableNumber .reference a)
          (encodeOrderableNumber .reference b)) := by
  have h := encodeOrderableNumber_order .reference BigDecimalCrate.reference_documented
  refine ⟨(h.1 _ _ ⟨⟨15, 0, rfl, by norm_num [maxSignificantDigits]⟩, .inr ?_⟩
    ⟨⟨-1, 2, rfl, by norm_num [maxSignificantDigits]⟩, .inr ?_⟩).1,
    h.2 .standard ⟨("pk", .s), some ("sk", .n)⟩ "sk" [("pk", .s "p"), ("sk", .n "1.5")]
      [("pk", .s "p"), ("sk", .n "-100")] rfl (by decide +kernel) (by decide +kernel) rfl⟩
  all_goals norm_num [BigDecimal.value, minExponent, maxExponent]

end ExtendDb
