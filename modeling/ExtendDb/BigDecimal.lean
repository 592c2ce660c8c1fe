import ExtendDb.Validation.NormalForm

/-!
# The `bigdecimal` crate

Number arithmetic and comparison go through the `bigdecimal` crate, whose code is not part of the
repository.
-/

namespace ExtendDb

open DecimalText

@[ext]
structure BigDecimal where
  mantissa : Int
  scale : Int
deriving DecidableEq

namespace BigDecimal

def rescale (d : BigDecimal) (s : Int) : Int := d.mantissa * 10 ^ (s - d.scale).toNat

/-- Exact addition: both operands at the larger of their scales. -/
def exactAdd (a b : BigDecimal) : BigDecimal :=
  ⟨a.rescale (max a.scale b.scale) + b.rescale (max a.scale b.scale), max a.scale b.scale⟩

def exactSub (a b : BigDecimal) : BigDecimal :=
  ⟨a.rescale (max a.scale b.scale) - b.rescale (max a.scale b.scale), max a.scale b.scale⟩

/-- Numeric comparison: both operands at the larger of their scales. -/
def exactCmp (a b : BigDecimal) : Ordering :=
  compare (a.rescale (max a.scale b.scale)) (b.rescale (max a.scale b.scale))

def zero : BigDecimal := ⟨0, 0⟩

def isZero (d : BigDecimal) : Bool := d.mantissa == 0

def abs (d : BigDecimal) : BigDecimal := ⟨d.mantissa.natAbs, d.scale⟩

def plainText (d : BigDecimal) : String :=
  String.ofList
    (signText (d.mantissa < 0) ++ plain (Nat.toDigits 10 d.mantissa.natAbs) d.scale.toNat)

/-- Written with all its fraction digits, the number has no zero at the end of the fraction. -/
def NoTrailingZero (d : BigDecimal) : Prop := d.scale = 0 ∨ d.mantissa % 10 ≠ 0

instance (d : BigDecimal) : Decidable d.NoTrailingZero :=
  inferInstanceAs (Decidable (d.scale = 0 ∨ d.mantissa % 10 ≠ 0))

end BigDecimal

/-- The functions of the crate that the modelled code calls, and when its `Display` switches to
exponent form. -/
structure BigDecimalCrate where
  parse : String → Option BigDecimal
  toString : BigDecimal → String
  add : BigDecimal → BigDecimal → BigDecimal
  sub : BigDecimal → BigDecimal → BigDecimal
  cmp : BigDecimal → BigDecimal → Ordering
  normalized : BigDecimal → BigDecimal
  exponentForm : BigDecimal → Bool

/-- The documented behaviour of the crate without its printing. -/
structure BigDecimalCrate.Documented (bd : BigDecimalCrate) : Prop where
  parse_plain : ∀ (negative : Bool) (ds : List Char) (scale : Nat), ds ≠ [] → AllDigits ds →
    bd.parse (String.ofList (signText negative ++ plain ds scale)) =
      some ⟨(if negative then -1 else 1) * (Nat.ofDigitChars 10 ds 0 : Int), scale⟩
  add_eq : ∀ a b, bd.add a b = a.exactAdd b
  sub_eq : ∀ a b, bd.sub a b = a.exactSub b
  cmp_eq : ∀ a b, bd.cmp a b = a.exactCmp b
  normalized_eq : ∀ d : BigDecimal, d.mantissa ≠ 0 → (bd.normalized d).mantissa % 10 ≠ 0 ∧
    ∃ zeros : Nat, d = ⟨(bd.normalized d).mantissa * 10 ^ zeros, (bd.normalized d).scale + zeros⟩

/-- The crate prints all digits, those of a zero too.  Only decimals of non-negative scale are
printed: parsing number texts in normal form and computing with them produces no others. -/
structure BigDecimalCrate.PrintsDigits (bd : BigDecimalCrate) : Prop extends bd.Documented where
  parse_toString : ∀ d : BigDecimal, 0 ≤ d.scale → bd.parse (bd.toString d) = some d
  toString_plain : ∀ d : BigDecimal, 0 ≤ d.scale → bd.exponentForm d = false →
    bd.toString d = d.plainText
  toString_exponent : ∀ d : BigDecimal, 0 ≤ d.scale → bd.exponentForm d = true →
    'E' ∈ (bd.toString d).toList

/-! ## Printed decimals in normal form -/

theorem BigDecimal.plainText_isNormal_iff {d : BigDecimal} (hscale : 0 ≤ d.scale)
    (hvalid : IsValidNumber d.plainText) : IsNormal d.plainText ↔ d.NoTrailingZero := by
  rw [NoTrailingZero]
  by_cases hzero : d.mantissa = 0
  · have htext : d.plainText = String.ofList (plain ['0'] d.scale.toNat) := by
      simp [plainText, hzero, signText]
    rw [htext, isNormal_zero_iff]
    omega
  · have ht := significant_trimTrailing_toDigits (Int.natAbs_pos.mpr hzero)
    have hlast := trailing_toDigits_eq_zero_iff d.mantissa.natAbs
    rw [plainText, ← trimTrailing_append_zeros (Nat.toDigits 10 d.mantissa.natAbs)] at hvalid ⊢
    rw [isNormal_plain_iff _ ht _ _ hvalid]
    omega

/-- The crate prints a decimal in normal form exactly when it prints all digits and the fraction
does not end in zero. -/
theorem BigDecimalCrate.PrintsDigits.toString_isNormal_iff {bd : BigDecimalCrate}
    (hbd : bd.PrintsDigits) {d : BigDecimal} (hscale : 0 ≤ d.scale)
    (hvalid : IsValidNumber (bd.toString d)) :
    IsNormal (bd.toString d) ↔ bd.exponentForm d = false ∧ d.NoTrailingZero := by
  cases hform : bd.exponentForm d with
  | true =>
    have hmem := hbd.toString_exponent d hscale hform
    simp only [Bool.true_eq_false, false_and, iff_false]
    exact fun hnormal => hnormal.exponent_notMem hmem
  | false =>
    rw [hbd.toString_plain d hscale hform] at hvalid ⊢
    simp [BigDecimal.plainText_isNormal_iff hscale hvalid]

theorem BigDecimalCrate.Documented.parse_isNormal {bd : BigDecimalCrate} (hbd : bd.Documented) {s}
    (h : IsNormal s) : ∃ d, bd.parse s = some d ∧ 0 ≤ d.scale := by
  obtain ⟨negative, ds, scale, hne, hd, rfl⟩ := h.exists_plain
  exact ⟨_, hbd.parse_plain negative ds scale hne hd, Int.natCast_nonneg scale⟩

end ExtendDb
