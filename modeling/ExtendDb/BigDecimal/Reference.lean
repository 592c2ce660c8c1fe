import ExtendDb.BigDecimal

/-!
# An implementation of the decimal crate

`BigDecimalCrate.reference` computes as the crate does: texts are parsed digit by digit, and a
decimal with more than five zeros between the point and its first digit is printed in exponent form.
-/

namespace ExtendDb

open DecimalText List BigDecimal Nat

namespace BigDecimal

def readExponent : List Char → Option Int
  | '-' :: ds => if ds.isEmpty || !ds.all Char.isDigit then none
      else some (-(ofDigitChars 10 ds 0 : Int))
  | '+' :: ds => if ds.isEmpty || !ds.all Char.isDigit then none else some (ofDigitChars 10 ds 0)
  | ds => if ds.isEmpty || !ds.all Char.isDigit then none else some (ofDigitChars 10 ds 0)

def readMantissa (negative : Bool) (base : List Char) (exp : Int) : Option BigDecimal :=
  let parts := (splitOnce (· == '.') base).getD (base, [])
  let ds := parts.1 ++ parts.2
  if ds.isEmpty || !ds.all Char.isDigit then none
  else some ⟨(if negative then -1 else 1) * (ofDigitChars 10 ds 0 : Int), parts.2.length - exp⟩

def readText (s : String) : Option BigDecimal :=
  let signed := stripSign s.toList
  match splitOnce (· == 'E') signed.2 with
  | some (base, e) => (readExponent e).bind (readMantissa signed.1 base)
  | none => readMantissa signed.1 signed.2 0

/-- More than five zeros stand between the point and the first digit. -/
def smallForm (d : BigDecimal) : Bool :=
  ((toDigits 10 d.mantissa.natAbs).length : Int) + 5 < d.scale

/-- One digit before the point and a negative exponent. -/
def scientific (ds : List Char) (scale : Nat) : List Char :=
  ds.take 1 ++ (if ds.length = 1 then [] else '.' :: ds.drop 1) ++
    'E' :: '-' :: toDigits 10 (scale - (ds.length - 1))

def printText (d : BigDecimal) : String :=
  if d.smallForm then
    String.ofList (signText (d.mantissa < 0) ++
      scientific (toDigits 10 d.mantissa.natAbs) d.scale.toNat)
  else d.plainText

theorem readMantissa_plain (negative) {ds} (hd : AllDigits ds) (scale) :
    readMantissa negative (plain ds scale) 0 =
      some ⟨(if negative then -1 else 1) * (ofDigitChars 10 ds 0 : Int), scale⟩ := by
  have hparts : (splitOnce (· == '.') (plain ds scale)).getD (plain ds scale, []) =
      (intPart ds scale, fracPart ds scale) := by
    rw [splitOnce_point_plain hd]
    split
    · rename_i hscale
      subst hscale
      simp [plain, eq_nil_of_length_eq_zero (length_fracPart ds 0)]
    · rfl
  have hvalue : ofDigitChars 10 (pad ds scale) 0 = ofDigitChars 10 ds 0 := by
    rw [pad, ofDigitChars_append, ofDigitChars_replicate_zero, mul_zero]
  have hne : (pad ds scale).isEmpty = false := by
    rw [isEmpty_eq_false_iff, ← length_pos_iff, length_pad]
    omega
  have hall : (pad ds scale).all Char.isDigit = true := all_eq_true.mpr (hd.pad scale)
  rw [readMantissa, hparts]
  simp only [intPart_append_fracPart, hne, hall, hvalue, length_fracPart]
  simp

private theorem exponent_ne_of_plainChar {c} (h : c.isDigit = true ∨ c = '.') :
    (c == 'E') = false := by
  rw [beq_eq_false_iff_ne]
  rintro rfl
  exact absurd h (by decide)

theorem readText_plain (negative) {ds} (hd : AllDigits ds) (scale) :
    readText (String.ofList (signText negative ++ plain ds scale)) =
      some ⟨(if negative then -1 else 1) * (ofDigitChars 10 ds 0 : Int), scale⟩ := by
  obtain ⟨c, cs, hint⟩ := exists_cons_of_ne_nil (intPart_ne_nil ds scale)
  have hc : c.isDigit = true := hd.intPart scale c (by simp [hint])
  have hplain : plain ds scale = c :: (plain ds scale).tail := by simp [plain, hint]
  have hsign : stripSign (signText negative ++ plain ds scale) = (negative, plain ds scale) := by
    rw [hplain]
    exact stripSign_signText negative hc _
  have hnone : splitOnce (· == 'E') (plain ds scale) = none :=
    splitOnce_eq_none fun c hc => exponent_ne_of_plainChar (mem_plain hd hc)
  rw [readText, String.toList_ofList, hsign]
  simp [hnone, readMantissa_plain negative hd]

theorem readText_scientific (negative) {c cs} (hd : AllDigits (c :: cs)) {scale}
    (hscale : cs.length ≤ scale) :
    readText (String.ofList (signText negative ++ scientific (c :: cs) scale)) =
      some ⟨(if negative then -1 else 1) * (ofDigitChars 10 (c :: cs) 0 : Int), scale⟩ := by
  have hc : c.isDigit = true := hd c (by simp)
  have hcs : AllDigits cs := fun d hd' => hd d (by simp [hd'])
  have hexp : readExponent ('-' :: toDigits 10 (scale - cs.length)) =
      some (-((scale - cs.length : Nat) : Int)) := by
    have hall : (toDigits 10 (scale - cs.length)).all Char.isDigit = true :=
      all_eq_true.mpr (allDigits_toDigits _)
    simp [readExponent, hall]
  have hmantissa : ∀ exp, readMantissa negative (c :: (if cs = [] then [] else '.' :: cs)) exp =
        some ⟨(if negative then -1 else 1) * (ofDigitChars 10 (c :: cs) 0 : Int),
          cs.length - exp⟩ := by
    intro exp
    have hall : (c :: cs).all Char.isDigit = true := all_eq_true.mpr hd
    by_cases hnil : cs = []
    · subst hnil
      have hnone : splitOnce (· == '.') [c] = none :=
        splitOnce_eq_none fun d hd' => point_ne_of_isDigit (hd d hd')
      simp [readMantissa, hnone, hc]
    · have hsplit : splitOnce (· == '.') ([c] ++ '.' :: cs) = some ([c], cs) :=
        splitOnce_append cs (fun d hd' => by
          rw [mem_singleton.mp hd']
          exact point_ne_of_isDigit hc) rfl
      simp only [singleton_append] at hsplit
      simp [readMantissa, hnil, hsplit, hall]
  have htext : scientific (c :: cs) scale = (c :: (if cs = [] then [] else '.' :: cs)) ++
        'E' :: '-' :: toDigits 10 (scale - cs.length) := by
    simp [scientific]
  have hfront : ∀ d ∈ c :: (if cs = [] then [] else '.' :: cs), (d == 'E') = false := by
    intro d hd'
    apply exponent_ne_of_plainChar
    rcases mem_cons.mp hd' with rfl | hd'
    · exact .inl hc
    · split at hd'
      · simp at hd'
      · exact (mem_cons.mp hd').elim .inr fun h => .inl (hcs d h)
  have hsign := stripSign_signText negative hc
  rw [readText, String.toList_ofList, htext, cons_append, hsign, ← cons_append]
  have hsplit := splitOnce_append ('-' :: toDigits 10 (scale - cs.length)) hfront
    (show ('E' == 'E') = true by rfl)
  simp only [hsplit, hexp, Option.bind_some, hmantissa]
  congr 2
  omega

theorem readText_printText {d} (hscale : 0 ≤ d.scale) : readText d.printText = some d := by
  have hsigned : (if decide (d.mantissa < 0) = true then -1 else 1) *
      (d.mantissa.natAbs : Int) = d.mantissa := by
    by_cases hneg : d.mantissa < 0
    · rw [if_pos (by simpa using hneg)]
      omega
    · rw [if_neg (by simpa using hneg)]
      omega
  have hvalue : (⟨(if decide (d.mantissa < 0) = true then -1 else 1) *
      (ofDigitChars 10 (toDigits 10 d.mantissa.natAbs) 0 : Int), (d.scale.toNat : Int)⟩ :
      BigDecimal) = d := by
    rw [ofDigitChars_ten_toDigits, hsigned, Int.toNat_of_nonneg hscale]
  unfold printText
  split
  · rename_i hsmall
    obtain ⟨c, cs, hcs⟩ :=
      exists_cons_of_ne_nil (toDigits_ne_nil (n := d.mantissa.natAbs) (b := 10))
    have hd := allDigits_toDigits d.mantissa.natAbs
    simp only [smallForm, hcs, length_cons, decide_eq_true_eq] at hsmall
    rw [hcs] at hd hvalue ⊢
    rw [readText_scientific _ hd (by omega), hvalue]
  · rw [plainText, readText_plain _ (allDigits_toDigits _), hvalue]

def stripZeros : Nat → BigDecimal → BigDecimal
  | 0, d => d
  | fuel + 1, d =>
    if d.mantissa % 10 = 0 then stripZeros fuel ⟨d.mantissa / 10, d.scale - 1⟩ else d

theorem stripZeros_spec {fuel d} (hne : d.mantissa ≠ 0) (hfuel : d.mantissa.natAbs ≤ fuel) :
    (stripZeros fuel d).mantissa % 10 ≠ 0 ∧
      ∃ zeros : Nat, d = ⟨(stripZeros fuel d).mantissa * 10 ^ zeros,
        (stripZeros fuel d).scale + zeros⟩ := by
  induction fuel generalizing d with
  | zero => omega
  | succ fuel ih =>
    by_cases hzero : d.mantissa % 10 = 0
    · rw [stripZeros, if_pos hzero]
      obtain ⟨hlast, zeros, heq⟩ :=
        ih (d := ⟨d.mantissa / 10, d.scale - 1⟩) (by dsimp only; omega) (by dsimp only; omega)
      refine ⟨hlast, zeros + 1, ?_⟩
      obtain ⟨hmantissa, hscale⟩ := mk.inj heq
      rw [pow_succ, ← mul_assoc]
      ext <;> (dsimp only; push_cast; omega)
    · rw [stripZeros, if_neg hzero]
      exact ⟨hzero, 0, by simp⟩

end BigDecimal

def BigDecimalCrate.reference : BigDecimalCrate where
  parse := readText
  toString := printText
  add := exactAdd
  sub := exactSub
  cmp := exactCmp
  normalized := fun d => .stripZeros d.mantissa.natAbs d
  exponentForm := smallForm

theorem BigDecimalCrate.reference_documented : BigDecimalCrate.reference.Documented where
  parse_plain := fun negative _ scale _ hd => readText_plain negative hd scale
  add_eq := fun _ _ => rfl
  sub_eq := fun _ _ => rfl
  cmp_eq := fun _ _ => rfl
  normalized_eq := fun _ hne => stripZeros_spec hne le_rfl

theorem BigDecimalCrate.reference_printsDigits : BigDecimalCrate.reference.PrintsDigits where
  toDocumented := reference_documented
  parse_toString := fun _ hscale => readText_printText hscale
  toString_plain := fun d _ hform => by
    have hsmall : d.smallForm = false := hform
    simp [reference, printText, hsmall]
  toString_exponent := fun d _ hform => by
    have hsmall : d.smallForm = true := hform
    simp [reference, printText, hsmall, scientific]

end ExtendDb
