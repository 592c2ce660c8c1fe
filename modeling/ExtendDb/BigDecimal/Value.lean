import ExtendDb.Theory.DigitOrder
import ExtendDb.BigDecimal.Reference

/-!
# The numbers decimals stand for

The crate's comparison is the comparison of rational numbers, and a decimal without trailing zeros
in its mantissa is determined by the number it stands for.
-/

namespace ExtendDb

open DecimalText Option

namespace BigDecimal

def value (d : BigDecimal) : ℚ := d.mantissa * 10 ^ (-d.scale)

structure Supported (d : BigDecimal) : Prop where
  digits : ∃ (m : Int) (zeros : Nat), d.mantissa = m * 10 ^ zeros ∧ |m| < 10 ^ maxSignificantDigits
  magnitude : d.value = 0 ∨
    10 ^ minExponent ≤ |d.value| ∧ |d.value| < 10 ^ (maxExponent + 1)

variable {d : BigDecimal}

theorem value_eq_zero_iff : d.value = 0 ↔ d.mantissa = 0 := by
  have hpow : (10 : ℚ) ^ (-d.scale) ≠ 0 := by positivity
  rw [value, mul_eq_zero, or_iff_left hpow, Int.cast_eq_zero]

theorem value_neg_iff : d.value < 0 ↔ d.mantissa < 0 := by
  have hpow : (0 : ℚ) < 10 ^ (-d.scale) := by positivity
  rw [value, mul_neg_iff, or_iff_right (fun h => absurd h.2 hpow.not_gt), and_iff_left hpow,
    Int.cast_lt_zero]

theorem value_abs (d : BigDecimal) : d.abs.value = |d.value| := by
  rw [value, value]
  simp [abs]

/-! ## Comparison -/

theorem rescale_eq {s} (h : d.scale ≤ s) : (d.rescale s : ℚ) = d.value * 10 ^ s := by
  have hexp : (-d.scale + s : Int) = (s - d.scale).toNat := by omega
  rw [rescale, value, mul_assoc, ← zpow_add₀ (by norm_num), hexp]
  push_cast
  rfl

theorem exactCmp_compares (a b : BigDecimal) : (a.exactCmp b).Compares a.value b.value := by
  set s := max a.scale b.scale
  have hpow : (0 : ℚ) < 10 ^ s := by positivity
  have ha : (a.rescale s : ℚ) = a.value * 10 ^ s := rescale_eq (le_max_left ..)
  have hb : (b.rescale s : ℚ) = b.value * 10 ^ s := rescale_eq (le_max_right ..)
  have hlt (x y : BigDecimal) (hx : (x.rescale s : ℚ) = x.value * 10 ^ s)
      (hy : (y.rescale s : ℚ) = y.value * 10 ^ s) : x.rescale s < y.rescale s ↔ x.value < y.value := by
    rw [← Int.cast_lt (R := ℚ), hx, hy, mul_lt_mul_iff_left₀ hpow]
  have hcompares : (a.exactCmp b).Compares (a.rescale s) (b.rescale s) := by
    rw [exactCmp, ← cmp_eq_compare]
    exact cmp_compares ..
  cases hcmp : a.exactCmp b <;> rw [hcmp] at hcompares
  · exact (hlt a b ha hb).mp hcompares
  · have heq : (a.rescale s : ℚ) = b.rescale s := congrArg _ hcompares
    rw [ha, hb] at heq
    exact mul_right_cancel₀ hpow.ne' heq
  · exact (hlt b a hb ha).mp hcompares

/-! ## Mantissas without trailing zeros -/

private theorem eq_of_value_eq_of_le {a b : BigDecimal} (hb : b.mantissa % 10 ≠ 0)
    (hle : a.scale ≤ b.scale) (h : a.value = b.value) : a = b := by
  have hrescale : a.rescale b.scale = b.rescale b.scale := by
    have ha := rescale_eq hle
    rw [h, ← rescale_eq le_rfl] at ha
    exact_mod_cast ha
  simp only [rescale, Int.sub_self, Int.toNat_zero, pow_zero, mul_one] at hrescale
  -- a larger scale would leave a zero at the end of the mantissa
  rcases Nat.eq_zero_or_pos (b.scale - a.scale).toNat with hzero | hpos
  · rw [hzero, pow_zero, mul_one] at hrescale
    ext
    · exact hrescale
    · omega
  · obtain ⟨k, hk⟩ := Nat.exists_eq_add_of_lt hpos
    rw [hk, pow_succ, ← mul_assoc] at hrescale
    omega

theorem eq_of_value_eq {a b : BigDecimal} (ha : a.mantissa % 10 ≠ 0) (hb : b.mantissa % 10 ≠ 0)
    (h : a.value = b.value) : a = b := by
  rcases le_total a.scale b.scale with hle | hle
  · exact eq_of_value_eq_of_le hb hle h
  · exact (eq_of_value_eq_of_le ha hle h.symm).symm

theorem isScientific_of_pos (h : 0 < d.mantissa) :
    IsScientific d.value (Nat.toDigits 10 d.mantissa.natAbs)
      ((Nat.toDigits 10 d.mantissa.natAbs).length - d.scale) where
  digits := allDigits_toDigits _
  head := head?_toDigits_ne_zero (by omega)
  ne_nil := Nat.toDigits_ne_nil
  eq := by
    have hcast : ((d.mantissa.natAbs : Nat) : ℚ) = d.mantissa := by
      rw [← Int.cast_natCast, Int.natAbs_of_nonneg h.le]
    rw [value_toDigits, hcast, value]
    congr 2
    omega

end BigDecimal

namespace BigDecimalCrate.Documented

variable {bd : BigDecimalCrate} (hbd : bd.Documented)
include hbd

theorem value_normalized {d} (hne : d.mantissa ≠ 0) : (bd.normalized d).value = d.value := by
  obtain ⟨-, zeros, heq⟩ := hbd.normalized_eq d hne
  have hexp : (zeros : Int) + (-((bd.normalized d).scale + zeros)) = -(bd.normalized d).scale := by
    omega
  conv_rhs => rw [heq]
  rw [BigDecimal.value, BigDecimal.value, ← hexp, zpow_add₀ (by norm_num), zpow_natCast]
  push_cast
  ring

end BigDecimalCrate.Documented

theorem InRange.supported {t exp} (ht : Significant t) (hrange : InRange t exp) (negative : Bool) :
    BigDecimal.Supported ⟨(if negative then -1 else 1) *
      (Nat.ofDigitChars 10 (t ++ List.replicate exp.toNat '0') 0 : Int), (-exp).toNat⟩ := by
  obtain ⟨hlen, hmax, hmin⟩ := hrange
  set sign : Int := if negative then -1 else 1 with hsign
  have habs : |sign| = 1 := by cases negative <;> simp [hsign]
  have hdigits : Nat.ofDigitChars 10 (t ++ List.replicate exp.toNat '0') 0 =
      10 ^ exp.toNat * value t := by
    rw [Nat.ofDigitChars_append, Nat.ofDigitChars_replicate_zero, value]
  rw [hdigits]
  constructor
  · refine ⟨sign * value t, exp.toNat, by push_cast; ring, ?_⟩
    have hlt : value t < 10 ^ maxSignificantDigits :=
      (value_lt ht.digits).trans_le (Nat.pow_le_pow_right (by decide) hlen)
    rw [abs_mul, habs, one_mul]
    exact_mod_cast hlt
  · right
    have hvalue : |BigDecimal.value
        ⟨sign * (10 ^ exp.toNat * value t : Nat), (-exp).toNat⟩| = value t * 10 ^ exp := by
      have hexp : exp = (exp.toNat : Int) + -((-exp).toNat : Int) := by omega
      have habsq : |(sign : ℚ)| = 1 := by exact_mod_cast habs
      rw [BigDecimal.value]
      push_cast
      rw [abs_mul, abs_mul, habsq, one_mul, abs_of_nonneg (by positivity),
        abs_of_nonneg (by positivity), mul_comm ((10 : ℚ) ^ exp.toNat), mul_assoc, ← zpow_natCast,
        ← zpow_add₀ (by norm_num), ← hexp]
    have hform : IsScientific (value t * 10 ^ exp) t (t.length + exp) :=
      ⟨ht.digits, ht.head, ht.ne_nil, by congr 2; omega⟩
    rw [hvalue]
    constructor
    · exact le_trans (zpow_le_zpow_right₀ (by norm_num) (by omega)) hform.pow_le
    · exact hform.lt_pow.trans_le (zpow_le_zpow_right₀ (by norm_num) (by omega))

theorem BigDecimalCrate.Documented.parse_supported {bd : BigDecimalCrate} (hbd : bd.Documented) {s}
    (h : IsNormal s) : ∃ d, bd.parse s = some d ∧ d.Supported := by
  rcases (isNormal_iff s).mp h with rfl | ⟨negative, t, exp, ht, hrange, rfl⟩
  · refine ⟨⟨0, 0⟩, ?_, ⟨0, 0, rfl, by norm_num⟩, .inl (by simp [BigDecimal.value])⟩
    exact hbd.parse_plain false ['0'] 0 (by simp) (allDigits_zeros 1)
  · have hdigits := ht.digits.append (allDigits_zeros exp.toNat)
    rw [formatPlain_eq_plain negative ht.ne_nil]
    exact ⟨_, hbd.parse_plain negative _ _ (by simp [ht.ne_nil]) hdigits,
      hrange.supported ht negative⟩

/-! ## The numbers texts write -/

def numberValue (s : String) : Option ℚ := (BigDecimal.readText s).map BigDecimal.value

variable {t : List Char}

theorem Significant.eq_of_value_eq {u} (ht : Significant t) (hu : Significant u)
    (h : value t = value u) : t = u := by
  have hbounds {xs : List Char} (hx : Significant xs) :
      10 ^ (xs.length - 1) ≤ value xs ∧ value xs < 10 ^ xs.length ∧ 0 < xs.length :=
    ⟨pow_le_value hx.digits hx.head hx.ne_nil, value_lt hx.digits,
      List.length_pos_of_ne_nil hx.ne_nil⟩
  obtain ⟨hlo, hhi, hpos⟩ := hbounds ht
  obtain ⟨hlo', hhi', hpos'⟩ := hbounds hu
  rw [h] at hlo hhi
  have hle := (Nat.pow_lt_pow_iff_right (by decide : 1 < 10)).mp (hlo.trans_lt hhi')
  have hge := (Nat.pow_lt_pow_iff_right (by decide : 1 < 10)).mp (hlo'.trans_lt hhi)
  exact DecimalText.eq_of_value_eq ht.digits hu.digits (by omega) h

theorem Significant.value_mod_ten (ht : Significant t) : value t % 10 ≠ 0 := by
  obtain ⟨ds, d, rfl⟩ : ∃ ds d, t = ds ++ [d] :=
    ⟨t.dropLast, t.getLast ht.ne_nil, (List.dropLast_append_getLast ht.ne_nil).symm⟩
  have hd : d.isDigit = true := ht.digits d (by simp)
  have hlast : d ≠ '0' := by simpa using ht.last
  have hvalue : value (ds ++ [d]) = 10 * value ds + digitValue d := by
    rw [value, Nat.ofDigitChars_append]
    rfl
  have hlt := digitValue_lt_ten hd
  have hne : digitValue d ≠ 0 := fun h => hlast (digitValue_inj hd (by decide) (by rw [h]; rfl))
  omega

def significantDecimal (negative : Bool) (t : List Char) (exp : Int) : BigDecimal :=
  ⟨(if negative then -1 else 1) * value t, -exp⟩

theorem numberValue_formatPlain (negative) (ht : Significant t) (exp) :
    numberValue (String.ofList (formatPlain negative t exp)) =
      some (significantDecimal negative t exp).value := by
  have hdigits := ht.digits.append (allDigits_zeros exp.toNat)
  rw [numberValue, formatPlain_eq_plain negative ht.ne_nil, BigDecimal.readText_plain _ hdigits,
    map_some, some.injEq, Nat.ofDigitChars_append, Nat.ofDigitChars_replicate_zero,
    significantDecimal, BigDecimal.value, BigDecimal.value, ← value]
  have hexp : (- -exp : Int) = (exp.toNat : Int) + -((-exp).toNat : Int) := by omega
  rw [hexp, zpow_add₀ (by norm_num), zpow_natCast]
  push_cast
  ring

theorem significantDecimal_inj {negative negative' u exp exp'} (ht : Significant t)
    (hu : Significant u)
    (h : (significantDecimal negative t exp).value = (significantDecimal negative' u exp').value) :
    negative = negative' ∧ t = u ∧ exp = exp' := by
  have hmod (b : Bool) {xs : List Char} (hx : Significant xs) (e : Int) :
      (significantDecimal b xs e).mantissa % 10 ≠ 0 := by
    have := hx.value_mod_ten
    cases b <;> simp [significantDecimal] <;> omega
  obtain ⟨hmantissa, hscale⟩ := BigDecimal.mk.inj
    (BigDecimal.eq_of_value_eq (hmod negative ht exp) (hmod negative' hu exp') h)
  have htpos := ht.value_mod_ten
  have hvalue : value t = value u ∧ negative = negative' := by
    cases negative <;> cases negative' <;> simp at hmantissa ⊢ <;> omega
  exact ⟨hvalue.2, ht.eq_of_value_eq hu hvalue.1, by omega⟩

theorem numberValue_zero : numberValue "0" = some 0 := by
  rw [numberValue, show BigDecimal.readText "0" = some ⟨0, 0⟩ by decide]
  simp [BigDecimal.value]

theorem Significant.value_ne_zero (negative) (ht : Significant t) (exp) :
    (significantDecimal negative t exp).value ≠ 0 := by
  have := ht.value_mod_ten
  rw [ne_eq, BigDecimal.value_eq_zero_iff]
  cases negative <;> simp [significantDecimal] <;> omega

theorem IsNormal.eq_of_numberValue_eq {s t} (hs : IsNormal s) (ht : IsNormal t)
    (h : numberValue s = numberValue t) : s = t := by
  rcases (isNormal_iff s).mp hs with rfl | ⟨negative, ds, exp, hds, -, rfl⟩ <;>
    rcases (isNormal_iff t).mp ht with rfl | ⟨negative', es, exp', hes, -, rfl⟩
  · rfl
  · rw [numberValue_zero, numberValue_formatPlain negative' hes, some.injEq] at h
    exact absurd h.symm (hes.value_ne_zero negative' exp')
  · rw [numberValue_zero, numberValue_formatPlain negative hds, some.injEq] at h
    exact absurd h (hds.value_ne_zero negative exp)
  · rw [numberValue_formatPlain negative hds, numberValue_formatPlain negative' hes,
      some.injEq] at h
    obtain ⟨rfl, rfl, rfl⟩ := significantDecimal_inj hds hes h
    rfl

end ExtendDb
