import Mathlib.Tactic.Ring
import Mathlib.Tactic.Linarith
import Mathlib.Algebra.Order.Field.Power
import Mathlib.Tactic.Positivity
import ExtendDb.Theory.DecimalText

/-!
# Lexicographic order of digit strings

Read as fractions `0.d₁d₂…`, digit strings compare as they do lexicographically; digit strings of
one length compare as the numbers they write; complementing every digit and closing with a
character above the digits reverses the order.
-/

namespace DecimalText

open List Nat

/-! ## Values -/

def digitValue (c : Char) : Nat := c.toNat - '0'.toNat

variable {c : Char}

theorem isDigit_iff : c.isDigit = true ↔ 48 ≤ c.toNat ∧ c.toNat ≤ 57 := by
  simp only [Char.isDigit, Bool.and_eq_true, decide_eq_true_eq]
  rfl

theorem digitValue_lt_iff {d} (hc : c.isDigit = true) (hd : d.isDigit = true) :
    digitValue c < digitValue d ↔ c < d := by
  rw [isDigit_iff] at hc hd
  have hlt : c < d ↔ c.toNat < d.toNat := .rfl
  rw [hlt, digitValue, digitValue, show '0'.toNat = 48 from rfl]
  omega

theorem digitValue_inj {d} (hc : c.isDigit = true) (hd : d.isDigit = true)
    (h : digitValue c = digitValue d) : c = d := by
  rw [isDigit_iff] at hc hd
  rw [digitValue, digitValue, show '0'.toNat = 48 from rfl] at h
  exact Char.toNat_inj.mp (by omega)

theorem digitValue_lt_ten (hc : c.isDigit = true) : digitValue c < 10 := by
  rw [isDigit_iff] at hc
  rw [digitValue, show '0'.toNat = 48 from rfl]
  omega

/-- The number a digit string writes. -/
def value (ds : List Char) : Nat := ofDigitChars 10 ds 0

theorem value_cons (c cs) : value (c :: cs) = 10 ^ cs.length * digitValue c + value cs := by
  rw [value, ofDigitChars_cons, ofDigitChars_eq_ofDigitChars_zero, value, digitValue, Nat.zero_add]

theorem value_lt {ds} (h : AllDigits ds) : value ds < 10 ^ ds.length := by
  induction ds with
  | nil => decide
  | cons c cs ih =>
    have hc := digitValue_lt_ten (h c (by simp))
    have hcs := ih fun d hd => h d (.tail _ hd)
    rw [value_cons, length_cons]
    have := mul_le_mul_left (10 ^ cs.length) (Nat.lt_succ_iff.mp hc)
    omega

theorem eq_of_value_eq {xs ys} (hx : AllDigits xs) (hy : AllDigits ys)
    (hlen : xs.length = ys.length) (h : value xs = value ys) : xs = ys := by
  induction xs generalizing ys with
  | nil => exact (eq_nil_of_length_eq_zero hlen.symm).symm
  | cons x xs ih =>
    cases ys with
    | nil => cases hlen
    | cons y ys =>
      have hxs : AllDigits xs := fun d hd => hx d (.tail _ hd)
      have hys : AllDigits ys := fun d hd => hy d (.tail _ hd)
      have hlen' : xs.length = ys.length := by simpa using hlen
      have hX := value_lt hxs
      have hY := value_lt hys
      rw [value_cons, value_cons, hlen'] at h
      rw [hlen'] at hX
      -- quotient and remainder by the weight of the first digit
      have hpos : 0 < 10 ^ ys.length := Nat.pow_pos (by decide)
      have hdigit : digitValue x = digitValue y := by
        have := congrArg (· / 10 ^ ys.length) h
        simpa [mul_add_div hpos, div_eq_of_lt hX, div_eq_of_lt hY] using this
      rw [hdigit] at h
      rw [digitValue_inj (hx x (by simp)) (hy y (by simp)) hdigit,
        ih hxs hys hlen' (add_left_cancel h)]

theorem value_dropWhile (ds) : value (ds.dropWhile (· == '0')) = value ds := by
  induction ds with
  | nil => rfl
  | cons d ds ih =>
    by_cases hd : d = '0'
    · subst hd
      rw [dropWhile_cons_of_pos rfl, ih, value, value, ofDigitChars_cons]
      rfl
    · rw [dropWhile_cons_of_neg (by simpa using hd)]

theorem value_toDigits (n) : value (toDigits 10 n) = n := ofDigitChars_ten_toDigits

/-! ## Fractions -/

theorem lt_of_fraction_lt {xs ys} (hx : AllDigits xs) (hy : AllDigits ys)
    (h : value xs * 10 ^ ys.length < value ys * 10 ^ xs.length) : xs < ys := by
  induction xs generalizing ys with
  | nil =>
    cases ys with
    | nil => simp at h
    | cons y ys => exact nil_lt_cons y ys
  | cons x xs ih =>
    cases ys with
    | nil => simp [value] at h
    | cons y ys =>
      have hxd := hx x (by simp)
      have hyd := hy y (by simp)
      have hxs : AllDigits xs := fun d hd => hx d (.tail _ hd)
      have hys : AllDigits ys := fun d hd => hy d (.tail _ hd)
      rw [value_cons, value_cons, length_cons, length_cons] at h
      rcases lt_trichotomy (digitValue x) (digitValue y) with hlt | heq | hgt
      · exact .rel ((digitValue_lt_iff hxd hyd).mp hlt)
      · -- equal first digits: what is left are the fractions of the tails
        cases digitValue_inj hxd hyd heq
        apply List.Lex.cons
        apply ih hxs hys
        have hscaled : value xs * 10 ^ ys.length * 10 < value ys * 10 ^ xs.length * 10 := by
          rw [pow_succ, pow_succ] at h
          nlinarith [h]
        omega
      · -- a larger first digit outweighs any tail
        have htail := value_lt hys
        have hhead : 10 ^ ys.length * (digitValue y + 1) ≤ 10 ^ ys.length * digitValue x :=
          mul_le_mul_left _ hgt
        have hle : 10 ^ ys.length * digitValue y + value ys ≤ 10 ^ ys.length * digitValue x := by
          rw [mul_add] at hhead
          omega
        have hcontra : (10 ^ ys.length * digitValue y + value ys) * 10 ^ (xs.length + 1) ≤
            (10 ^ xs.length * digitValue x + value xs) * 10 ^ (ys.length + 1) := by
          calc (10 ^ ys.length * digitValue y + value ys) * 10 ^ (xs.length + 1)
              ≤ 10 ^ ys.length * digitValue x * 10 ^ (xs.length + 1) :=
                mul_le_mul_right _ hle
            _ = 10 ^ xs.length * digitValue x * 10 ^ (ys.length + 1) := by ring
            _ ≤ _ := mul_le_mul_right _ (Nat.le_add_right ..)
        omega

theorem lt_of_value_lt {xs ys} (hx : AllDigits xs) (hy : AllDigits ys)
    (hlen : xs.length = ys.length) (h : value xs < value ys) : xs < ys := by
  apply lt_of_fraction_lt hx hy
  rw [hlen]
  exact mul_lt_mul_of_pos_right h (Nat.pow_pos (by decide))

theorem append_lt_append {α : Type*} [LinearOrder α] {xs ys} (h : xs < ys)
    (hlen : xs.length = ys.length) (as bs : List α) : xs ++ as < ys ++ bs := by
  induction h with
  | nil => simp at hlen
  | cons _ ih => exact .cons (ih (by simpa using hlen))
  | rel hlt => exact .rel hlt

/-! ## Zero-padded integers -/

def zeroPadded (width : Nat) (v : Int) : List Char :=
  let digits := toDigits 10 v.natAbs
  let sign := signText (v < 0)
  sign ++ replicate (width - (sign.length + digits.length)) '0' ++ digits

theorem zeroPadded_natCast (width n : Nat) : zeroPadded width n =
      replicate (width - (toDigits 10 n).length) '0' ++ toDigits 10 n := by
  have hsign : ¬((n : Int) < 0) := by omega
  simp [zeroPadded, hsign, signText]

theorem length_zeroPadded {width n : Nat} (hpos : 0 < width) (h : n < 10 ^ width) :
    (zeroPadded width n).length = width := by
  have := (length_toDigits_le_iff (n := n) (b := 10) (by decide) hpos).mpr h
  rw [zeroPadded_natCast, length_append, length_replicate]
  omega

theorem allDigits_zeroPadded (width n : Nat) : AllDigits (zeroPadded width n) :=
  (allDigits_zeros _).append (allDigits_toDigits n)

theorem value_zeroPadded (width n : Nat) : value (zeroPadded width n) = n := by
  rw [zeroPadded_natCast, value, ofDigitChars_append, ofDigitChars_replicate_zero]
  exact value_toDigits n

theorem parseInteger_zeroPadded (width : Nat) {n : Nat} (h : n < 2 ^ 63) :
    parseInteger 64 (zeroPadded width n) = some (n : Int) := by
  have hne : zeroPadded width n ≠ [] := append_ne_nil_of_right_ne_nil _ toDigits_ne_nil
  have hdigits := allDigits_zeroPadded width n
  have hvalue := value_zeroPadded width n
  rw [value] at hvalue
  generalize zeroPadded width n = ds at *
  unfold parseInteger
  split
  · exact absurd (hdigits '-' mem_cons_self) (by decide)
  · exact absurd (hdigits '+' mem_cons_self) (by decide)
  · simp [hne, hvalue, show ds.all Char.isDigit = true from all_eq_true.mpr hdigits]
    omega

theorem zeroPadded_append_lt {width m n} (hm : 0 ≤ m) (hmn : m < n) (hn : n < 10 ^ width)
    (as bs : List Char) :
    zeroPadded width m ++ as < zeroPadded width n ++ bs := by
  obtain ⟨m, rfl⟩ := Int.eq_ofNat_of_zero_le hm
  obtain ⟨n, rfl⟩ := Int.eq_ofNat_of_zero_le (hm.trans hmn.le)
  have hn' : n < 10 ^ width := by exact_mod_cast hn
  have hpos : 0 < width := by
    rcases Nat.eq_zero_or_pos width with rfl | h
    · omega
    · exact h
  have hlen : (zeroPadded width m).length = (zeroPadded width n).length := by
    rw [length_zeroPadded hpos hn', length_zeroPadded hpos (by omega)]
  apply append_lt_append _ hlen
  apply lt_of_value_lt (allDigits_zeroPadded _ m) (allDigits_zeroPadded _ n) hlen
  rw [value_zeroPadded, value_zeroPadded]
  omega

/-! ## Complemented digits -/

def complementDigit (c : Char) : Char := Char.ofNat ('9'.toNat - (c.toNat - '0'.toNat))

theorem complementDigit_toNat (hc : c.isDigit = true) :
    (complementDigit c).toNat = 105 - c.toNat := by
  rw [isDigit_iff] at hc
  have hvalid : ('9'.toNat - (c.toNat - '0'.toNat)).isValidChar := by
    rw [show '9'.toNat = 57 from rfl]
    omega
  rw [complementDigit, Char.ofNat, dif_pos hvalid]
  change 57 - (c.toNat - 48) = _
  omega

/-- Complements closed by a terminator above the digits sort in the reverse order: at the first
difference, and also where one string ends. -/
theorem complement_append_lt {xs ys} (hx : AllDigits xs) (hy : AllDigits ys) {terminator}
    (hterm : '9' < terminator) (h : xs < ys) :
    ys.map complementDigit ++ [terminator] < xs.map complementDigit ++ [terminator] := by
  have htermNat : 57 < terminator.toNat := hterm
  induction h with
  | @nil y ys =>
    have hyd := hy y (by simp)
    have hlt : (complementDigit y).toNat < terminator.toNat := by
      rw [complementDigit_toNat hyd]
      rw [isDigit_iff] at hyd
      omega
    exact .rel hlt
  | @cons x xs ys _ ih =>
    exact .cons (ih (fun d hd => hx d (.tail _ hd)) fun d hd => hy d (.tail _ hd))
  | @rel x xs y ys hxy =>
    have hxd := hx x (by simp)
    have hyd := hy y (by simp)
    have hlt : (complementDigit y).toNat < (complementDigit x).toNat := by
      have hnat : x.toNat < y.toNat := hxy
      rw [complementDigit_toNat hxd, complementDigit_toNat hyd]
      rw [isDigit_iff] at hyd
      omega
    exact .rel hlt

/-! ## Positive numbers as `0.d₁d₂… × 10^e`

With a first digit other than zero the exponent brackets the number between two powers of ten. -/

structure IsScientific (v : ℚ) (ds : List Char) (e : Int) : Prop where
  digits : AllDigits ds
  head : ds.head? ≠ some '0'
  ne_nil : ds ≠ []
  eq : v = value ds * 10 ^ (e - ds.length)

theorem pow_le_value {ds} (h : AllDigits ds) (hhead : ds.head? ≠ some '0') (hne : ds ≠ []) :
    10 ^ (ds.length - 1) ≤ value ds := by
  obtain ⟨c, cs, rfl⟩ := exists_cons_of_ne_nil hne
  have hc : digitValue c ≠ 0 := by
    intro hzero
    have : c = '0' := digitValue_inj (h c (by simp)) (by decide) (by rw [hzero]; rfl)
    exact hhead (by rw [this]; rfl)
  rw [value_cons, length_cons, Nat.add_sub_cancel]
  have := mul_le_mul_left (10 ^ cs.length) (one_le_iff_ne_zero.mpr hc)
  omega

namespace IsScientific

variable {v w : ℚ} {ds es : List Char} {e f : Int}

theorem lt_pow (h : IsScientific v ds e) : v < 10 ^ e := by
  have hlt : (value ds : ℚ) < 10 ^ ds.length := by exact_mod_cast value_lt h.digits
  calc v = value ds * 10 ^ (e - ds.length) := h.eq
    _ < 10 ^ ds.length * 10 ^ (e - ds.length) := by gcongr
    _ = 10 ^ e := by
      rw [← zpow_natCast, ← zpow_add₀ (by norm_num)]
      congr 1
      omega

theorem pow_le (h : IsScientific v ds e) : 10 ^ (e - 1) ≤ v := by
  have hlen := List.length_pos_of_ne_nil h.ne_nil
  have hle : (10 : ℚ) ^ (ds.length - 1) ≤ value ds := by
    exact_mod_cast pow_le_value h.digits h.head h.ne_nil
  calc (10 : ℚ) ^ (e - 1) = 10 ^ (ds.length - 1) * 10 ^ (e - ds.length) := by
        rw [← zpow_natCast, ← zpow_add₀ (by norm_num)]
        congr 1
        omega
    _ ≤ value ds * 10 ^ (e - ds.length) := by gcongr
    _ = v := h.eq.symm

theorem pos (h : IsScientific v ds e) : 0 < v :=
  lt_of_lt_of_le (by positivity) h.pow_le

theorem lt (hv : IsScientific v ds e) (hw : IsScientific w es f) (h : v < w) :
    e < f ∨ e = f ∧ ds < es := by
  have hexp : 10 ^ (e - 1) < (10 : ℚ) ^ f := lt_of_le_of_lt hv.pow_le (h.trans hw.lt_pow)
  have hef : e ≤ f := by
    have := (zpow_lt_zpow_iff_right₀ (by norm_num : (1 : ℚ) < 10)).mp hexp
    omega
  rcases hef.lt_or_eq with hlt | rfl
  · exact .inl hlt
  refine .inr ⟨rfl, lt_of_fraction_lt hv.digits hw.digits ?_⟩
  -- multiply both sides by the digits each is short of
  have hscale (xs : List Char) : (10 : ℚ) ^ (e - xs.length) * 10 ^ xs.length = 10 ^ e := by
    rw [← zpow_natCast, ← zpow_add₀ (by norm_num)]
    congr 1
    omega
  have hpos : (0 : ℚ) < 10 ^ e := by positivity
  have hcast : (value ds * 10 ^ es.length : ℚ) < value es * 10 ^ ds.length := by
    rw [hv.eq, hw.eq] at h
    have hmul := mul_lt_mul_of_pos_right h
      (by positivity : (0 : ℚ) < 10 ^ ds.length * 10 ^ es.length)
    have hleft : (value ds : ℚ) * 10 ^ (e - ds.length) * (10 ^ ds.length * 10 ^ es.length) =
        value ds * 10 ^ es.length * 10 ^ e := by
      rw [← hscale ds]
      ring
    have hright : (value es : ℚ) * 10 ^ (e - es.length) * (10 ^ ds.length * 10 ^ es.length) =
        value es * 10 ^ ds.length * 10 ^ e := by
      rw [← hscale es]
      ring
    rw [hleft, hright] at hmul
    exact lt_of_mul_lt_mul_right hmul hpos.le
  exact_mod_cast hcast

end IsScientific

end DecimalText
