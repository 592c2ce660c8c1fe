import ExtendDb.BigDecimal.Value

/-!
# The canonical decimal normalizer

What `validate_and_normalize_number` accepts and returns, in terms of a grammar of number texts and
of the rational numbers they write.
-/

namespace ExtendDb

open DecimalText List

/-! ## Numbers -/

def signedValue (negative : Bool) (ds : List Char) (exp : Int) : ℚ :=
  (if negative then -1 else 1) * value ds * 10 ^ exp

def Denotes (s : String) (v : ℚ) : Prop :=
  ∃ p, SpellsNumber s p ∧ v = signedValue p.negative (p.int ++ p.frac) (p.exp - p.frac.length)

/-- Zero, or at most 38 significant digits and a magnitude from `10^-130` to below `10^126`. -/
def Storable (v : ℚ) : Prop :=
  v = 0 ∨ (∃ m e : Int, v = m * 10 ^ e ∧ |m| < 10 ^ 38) ∧
    10 ^ (-130 : Int) ≤ |v| ∧ |v| < 10 ^ (126 : Int)

/-! ## The range -/

theorem significantDecimal_value (negative t) (exp) :
    (significantDecimal negative t exp).value = signedValue negative t exp := by
  rw [BigDecimal.value, significantDecimal, neg_neg]
  push_cast
  rfl

variable {t : List Char}

theorem isScientific_abs (negative) (ht : Significant t) (exp) :
    IsScientific |signedValue negative t exp| t (t.length + exp) := by
  refine ⟨ht.digits, ht.head, ht.ne_nil, ?_⟩
  have hsign : |if negative = true then (-1 : ℚ) else 1| = 1 := by cases negative <;> simp
  rw [signedValue, abs_mul, abs_mul, hsign, one_mul, Nat.abs_cast,
    abs_of_pos (by positivity : (0 : ℚ) < 10 ^ exp)]
  congr 2
  omega

variable {negative : Bool} {e : Int}

/-- Digits that end in something else than zero are no longer than any mantissa of the number. -/
theorem Significant.length_le (ht : Significant t) {exp m : Int}
    (hv : signedValue negative t exp = m * 10 ^ e) {n} (hm : |m| < 10 ^ n) :
    t.length ≤ n := by
  have hmod := ht.value_mod_ten
  have hlow := pow_le_value ht.digits ht.head ht.ne_nil
  have habs : (value t : ℚ) * 10 ^ exp = |m| * 10 ^ e := by
    have h := (isScientific_abs negative ht exp).eq
    rw [hv, abs_mul, abs_of_pos (by positivity : (0 : ℚ) < 10 ^ e)] at h
    rw [← Int.cast_abs] at h
    rw [h]
    congr 2
    omega
  rcases le_or_gt e exp with hle | hlt
  · obtain ⟨k, hk⟩ := Int.le.dest hle
    have hmul : (value t * 10 ^ k : ℚ) = |m| := by
      rw [← hk, zpow_add₀ (by norm_num), mul_comm ((10 : ℚ) ^ e), ← mul_assoc] at habs
      exact mul_right_cancel₀ (by positivity) habs
    have hint : (value t : Int) * 10 ^ k = |m| := by exact_mod_cast hmul
    have hone : (1 : Int) ≤ 10 ^ k := one_le_pow₀ (by norm_num)
    have hlt : value t < 10 ^ n := by
      have : (value t : Int) < 10 ^ n := by nlinarith
      exact_mod_cast this
    have := (Nat.pow_lt_pow_iff_right (by decide : 1 < 10)).mp (hlow.trans_lt hlt)
    omega
  · -- a larger exponent would put a zero at the end of the digits
    obtain ⟨k, hk⟩ := Int.le.dest (Int.add_one_le_of_lt hlt)
    have hmul : (value t : ℚ) = |m| * 10 ^ (k + 1) := by
      rw [← hk, show exp + 1 + k = exp + ((k + 1 : Nat) : Int) by omega, zpow_add₀ (by norm_num),
        mul_left_comm, mul_comm] at habs
      exact mul_left_cancel₀ (by positivity) habs
    have hint : (value t : Int) = |m| * 10 ^ (k + 1) := by exact_mod_cast hmul
    rw [pow_succ, ← mul_assoc] at hint
    omega

theorem Significant.inRange_iff (ht : Significant t) (exp) :
    InRange t exp ↔ Storable (signedValue negative t exp) := by
  have hsci := isScientific_abs negative ht exp
  have hten : (1 : ℚ) < 10 := by norm_num
  constructor
  · rintro ⟨hlen, hmax, hmin⟩
    have hmaxE : maxExponent = 125 := rfl
    have hminE : minExponent = -130 := rfl
    refine .inr ⟨⟨(if negative then -1 else 1) * value t, exp, by simp [signedValue], ?_⟩, ?_, ?_⟩
    · have hsign : |if negative = true then (-1 : Int) else 1| = 1 := by cases negative <;> simp
      rw [abs_mul, hsign, one_mul]
      exact_mod_cast (value_lt ht.digits).trans_le (Nat.pow_le_pow_right (by decide) hlen)
    · exact (zpow_le_zpow_right₀ hten.le (by omega)).trans hsci.pow_le
    · exact hsci.lt_pow.trans_le (zpow_le_zpow_right₀ hten.le (by omega))
  · rintro (hzero | ⟨⟨m, e, hv, hm⟩, hlow, hhigh⟩)
    · have hpos := hsci.pos
      rw [hzero] at hpos
      exact absurd hpos (lt_irrefl _)
    have hmax := (zpow_lt_zpow_iff_right₀ hten).mp (hsci.pow_le.trans_lt hhigh)
    have hmin := (zpow_lt_zpow_iff_right₀ hten).mp (hlow.trans_lt hsci.lt_pow)
    refine ⟨ht.length_le hv hm, ?_, ?_⟩
    · rw [show maxExponent = 125 from rfl]
      omega
    · rw [show minExponent = -130 from rfl]
      omega

/-! ## Normalization -/

theorem exists_zeros (ds) :
    ∃ z k, ds = replicate z '0' ++ (trimTrailing (ds.dropWhile (· == '0')) ++ replicate k '0') := by
  have htake : ds.takeWhile (· == '0') = replicate (ds.takeWhile (· == '0')).length '0' := by
    refine eq_replicate_of_mem fun c hc => ?_
    simpa using mem_takeWhile_imp hc
  refine ⟨(ds.takeWhile (· == '0')).length,
    (ds.dropWhile (· == '0')).length - (trimTrailing (ds.dropWhile (· == '0'))).length, ?_⟩
  rw [trimTrailing_append_zeros, ← htake, takeWhile_append_dropWhile]

theorem value_zeros (z k) (t) :
    value (replicate z '0' ++ (t ++ replicate k '0')) = 10 ^ k * value t := by
  rw [value, Nat.ofDigitChars_append, Nat.ofDigitChars_replicate_zero, Nat.mul_zero,
    Nat.ofDigitChars_append, Nat.ofDigitChars_replicate_zero, value]

variable {ds : List Char}

/-- Every digit string has one text that writes its number; it is returned when the number is
storable, and is in normal form then. -/
theorem exists_canonical (hd : AllDigits ds) (negative) (offset) :
    ∃ c, numberValue c = some (signedValue negative ds offset) ∧
      (Storable (signedValue negative ds offset) → IsNormal c) ∧
      ∀ r, normalizeDigits negative ds offset = .ok r ↔
        Storable (signedValue negative ds offset) ∧ r = c := by
  obtain ⟨z, k, hds⟩ := exists_zeros ds
  by_cases hnil : trimTrailing (ds.dropWhile (· == '0')) = []
  · have hzero : signedValue negative ds offset = 0 := by
      rw [hds, signedValue, hnil]
      simp [value]
    have hok : normalizeDigits negative ds offset = .ok "0" := by
      simp [normalizeDigits, hnil]
    refine ⟨"0", by rw [hzero, numberValue_zero], fun _ => by decide, fun r => ?_⟩
    rw [hok, hzero]
    exact ⟨fun h => ⟨.inl rfl, (Except.ok.inj h).symm⟩, fun h => by rw [h.2]⟩
  · have ht := trimTrailing_dropWhile_significant hd hnil
    generalize trimTrailing (ds.dropWhile (· == '0')) = t at ht hds
    have hvalue : signedValue negative ds offset = signedValue negative t (offset + k) := by
      rw [signedValue, signedValue, hds, value_zeros, zpow_add₀ (by norm_num), zpow_natCast]
      push_cast
      ring
    have hnumber := numberValue_formatPlain negative ht (offset + k)
    rw [significantDecimal_value] at hnumber
    rw [hvalue]
    refine ⟨_, hnumber, fun hstorable => ?_, fun r => ?_⟩
    · exact (isNormal_iff _).mpr (.inr ⟨negative, t, _, ht, (ht.inRange_iff _).mpr hstorable, rfl⟩)
    · rw [hds, normalizeDigits_significant negative ht,
        (ht.inRange_iff _ : _ ↔ Storable (signedValue negative t _))]

theorem normalizeDigits_ok_value (hd : AllDigits ds) {offset r}
    (h : normalizeDigits negative ds offset = .ok r) :
    IsNormal r ∧ numberValue r = some (signedValue negative ds offset) := by
  obtain ⟨c, hvalue, hnormal, hok⟩ := exists_canonical hd negative offset
  obtain ⟨hstorable, rfl⟩ := (hok r).mp h
  exact ⟨hnormal hstorable, hvalue⟩

theorem normalizeDigits_isOk_iff (hd : AllDigits ds) (negative) (offset) :
    (∃ r, normalizeDigits negative ds offset = .ok r) ↔
      Storable (signedValue negative ds offset) := by
  obtain ⟨c, -, -, hok⟩ := exists_canonical hd negative offset
  exact ⟨fun ⟨r, h⟩ => ((hok r).mp h).1, fun h => ⟨c, (hok c).mpr ⟨h, rfl⟩⟩⟩

theorem IsNormal.denotes {t} (h : IsNormal t) {v} (hv : numberValue t = some v) : Denotes t v := by
  obtain ⟨p, hp⟩ := exists_spellsNumber h
  have hnorm := hp.validate_eq
  rw [h] at hnorm
  have := (normalizeDigits_ok_value hp.digits hnorm.symm).2
  exact ⟨p, hp, Option.some.inj (hv.symm.trans this)⟩

/-! ## Machine arithmetic -/

def i64Exponents (digits : List Char) (pointOffset : Int) : List Int :=
  let significant := digits.dropWhile (· == '0')
  let sigTrimmed := trimTrailing significant
  let exp := pointOffset + (significant.length - sigTrimmed.length : Nat)
  [pointOffset, exp, sigTrimmed.length - 1 + exp]

/-- The positions that `format_plain` computes in `i32`, when there are digits to format. -/
def i32Positions (digits : List Char) (pointOffset : Int) : List Int :=
  let significant := digits.dropWhile (· == '0')
  let sigTrimmed := trimTrailing significant
  let exp := pointOffset + (significant.length - sigTrimmed.length : Nat)
  let decimalPos := sigTrimmed.length + exp
  if sigTrimmed.isEmpty then []
  else [sigTrimmed.length, exp, decimalPos, -decimalPos, decimalPos - sigTrimmed.length]

theorem length_significant_le (ds : List Char) :
    (trimTrailing (ds.dropWhile (· == '0'))).length ≤ (ds.dropWhile (· == '0')).length ∧
      (ds.dropWhile (· == '0')).length ≤ ds.length :=
  ⟨IsPrefix.length_le <| rdropWhile_prefix _ _, (dropWhile_sublist _).length_le⟩

theorem parseI32_range (h : parseI32 ds = some e) : -2 ^ 31 ≤ e ∧ e < 2 ^ 31 := by
  have := (Option.filter_eq_some_iff.mp h).2
  simpa using this

variable {p : NumberParts} {s : String}

theorem SpellsNumber.exp_range (h : SpellsNumber s p) : -2 ^ 31 ≤ p.exp ∧ p.exp < 2 ^ 31 := by
  obtain ⟨negative, int, frac, exp⟩ := p
  obtain ⟨sign, mantissa, exponent, -, -, -, hexponent⟩ := h.text
  cases hexponent with
  | none => constructor <;> norm_num
  | some hc he => exact parseI32_range he

theorem SpellsNumber.length_le (h : SpellsNumber s p) : (p.int ++ p.frac).length ≤ s.length := by
  obtain ⟨negative, int, frac, exp⟩ := p
  obtain ⟨sign, mantissa, exponent, htext, -, hmantissa, -⟩ := h.text
  have hlen := congrArg length htext
  rw [String.length_toList] at hlen
  simp only [length_append] at hlen ⊢
  have hle : int.length + frac.length ≤ mantissa.length := by
    cases hmantissa with
    | whole => simp
    | point =>
      simp only [length_append, length_cons]
      omega
  omega

theorem SpellsNumber.i64Exponents_fit (h : SpellsNumber s p) (hlen : s.length < 2 ^ 63 - 2 ^ 31)
    (he : e ∈ i64Exponents (p.int ++ p.frac) (p.exp - p.frac.length)) :
    -2 ^ 63 ≤ e ∧ e < 2 ^ 63 := by
  have hexp := h.exp_range
  have hle := h.length_le
  have hsig := length_significant_le (p.int ++ p.frac)
  rw [length_append] at hle hsig
  simp only [i64Exponents, mem_cons, not_mem_nil, or_false] at he
  omega

theorem i32Positions_fit (hd : AllDigits ds) {offset r}
    (h : normalizeDigits negative ds offset = .ok r) (he : e ∈ i32Positions ds offset) :
    -2 ^ 31 ≤ e ∧ e < 2 ^ 31 := by
  unfold i32Positions at he
  simp only [List.isEmpty_iff] at he
  split at he
  · cases he
  rename_i hne
  have ht := trimTrailing_dropWhile_significant hd hne
  obtain ⟨z, k, hds⟩ := exists_zeros ds
  have hk : (ds.dropWhile (· == '0')).length - (trimTrailing (ds.dropWhile (· == '0'))).length =
      k := by
    conv_lhs => rw [hds, ht.dropWhile_zeros, ht.trimTrailing_append_zeros]
    simp
  rw [hds, normalizeDigits_significant negative ht] at h
  obtain ⟨⟨hlen, hmax, hmin⟩, -⟩ := h
  have hmaxDigits : maxSignificantDigits = 38 := rfl
  have hmaxExponent : maxExponent = 125 := rfl
  have hminExponent : minExponent = -130 := rfl
  simp only [mem_cons, not_mem_nil, or_false] at he
  omega

/-- `validate_and_normalize_number` is the canonical normalizer of decimal numbers: it accepts the
texts of the grammar whose number is storable, and returns the one text in normal form that writes
the number.  Its `i64` arithmetic stays in range for every text that is not within `2^31` of the
largest one `isize` can count, its `i32` arithmetic for every text. -/
theorem validateAndNormalizeNumber_canonical :
    (∀ s, (∃ t, validateAndNormalizeNumber s = .ok t) ↔ ∃ v, Denotes s v ∧ Storable v) ∧
    (∀ s t v, validateAndNormalizeNumber s = .ok t → Denotes s v → Denotes t v) ∧
    (∀ s t v s' t' v', validateAndNormalizeNumber s = .ok t → Denotes s v →
      validateAndNormalizeNumber s' = .ok t' → Denotes s' v' → (t = t' ↔ v = v')) ∧
    (∀ s t, validateAndNormalizeNumber s = .ok t → validateAndNormalizeNumber t = .ok t) ∧
    (∀ s, Denotes s 0 → validateAndNormalizeNumber s = .ok "0") ∧
    ∀ s p, SpellsNumber s p →
      (s.length < 2 ^ 63 - 2 ^ 31 → ∀ e ∈ i64Exponents (p.int ++ p.frac) (p.exp - p.frac.length),
        -2 ^ 63 ≤ e ∧ e < 2 ^ 63) ∧
      (∀ t, validateAndNormalizeNumber s = .ok t →
        ∀ e ∈ i32Positions (p.int ++ p.frac) (p.exp - p.frac.length), -2 ^ 31 ≤ e ∧ e < 2 ^ 31) := by
  -- what an accepted text returns, for any way to read it
  have hok : ∀ {s t v}, validateAndNormalizeNumber s = .ok t → Denotes s v →
      IsNormal t ∧ numberValue t = some v := by
    rintro s t v h ⟨p, hp, rfl⟩
    rw [hp.validate_eq] at h
    exact normalizeDigits_ok_value hp.digits h
  refine ⟨fun s => ⟨?_, ?_⟩, ?_, ?_, ?_, ?_, fun s p hp => ⟨fun hlen e => hp.i64Exponents_fit hlen, ?_⟩⟩
  · rintro ⟨t, h⟩
    obtain ⟨p, hp⟩ := exists_spellsNumber h
    rw [hp.validate_eq] at h
    exact ⟨_, ⟨p, hp, rfl⟩, (normalizeDigits_isOk_iff hp.digits _ _).mp ⟨t, h⟩⟩
  · rintro ⟨v, ⟨p, hp, rfl⟩, hstorable⟩
    rw [hp.validate_eq]
    exact (normalizeDigits_isOk_iff hp.digits _ _).mpr hstorable
  · intro s t v h hv
    exact (hok h hv).1.denotes (hok h hv).2
  · intro s t v s' t' v' h hv h' hv'
    constructor
    · rintro rfl
      exact Option.some.inj ((hok h hv).2.symm.trans (hok h' hv').2)
    · rintro rfl
      exact (hok h hv).1.eq_of_numberValue_eq (hok h' hv').1 ((hok h hv).2.trans (hok h' hv').2.symm)
  · intro s t h
    obtain ⟨p, hp⟩ := exists_spellsNumber h
    exact (hok h ⟨p, hp, rfl⟩).1
  · rintro s ⟨p, hp, hzero⟩
    obtain ⟨t, ht⟩ := (normalizeDigits_isOk_iff hp.digits _ _).mpr (.inl hzero.symm)
    obtain ⟨hnormal, hvalue⟩ := normalizeDigits_ok_value hp.digits ht
    rw [← hzero, ← numberValue_zero] at hvalue
    rw [hp.validate_eq, ht, hnormal.eq_of_numberValue_eq (by decide : IsNormal "0") hvalue]
  · intro t h e he
    rw [hp.validate_eq] at h
    exact i32Positions_fit hp.digits h he

theorem validateAndNormalizeNumber_canonical_scientific :
    validateAndNormalizeNumber "-01.50e1" = .ok "-15" ∧
      validateAndNormalizeNumber "-15" = .ok "-15" :=
  ⟨by decide, validateAndNormalizeNumber_canonical.2.2.2.1 "-01.50e1" "-15" (by decide)⟩

end ExtendDb
