import ExtendDb.Validation.Number

/-!
# Number texts in normal form

Validation returns `"0"` or a sign and `formatPlain` of digits without zeros at either end, and it
returns each of these texts unchanged.  So the texts in normal form are exactly these, and
validating twice is validating once.
-/

namespace ExtendDb

open DecimalText List Nat

variable {t : List Char}

theorem Significant.trimTrailing_append_zeros (ht : Significant t) (k) :
    trimTrailing (t ++ replicate k '0') = t := by
  rw [trimTrailing_append_replicate]
  obtain ⟨ds, d, rfl⟩ : ∃ ds d, t = ds ++ [d] :=
    ⟨t.dropLast, t.getLast ht.ne_nil, (dropLast_append_getLast ht.ne_nil).symm⟩
  apply trimTrailing_concat_of_ne
  have hlast := ht.last
  simpa using hlast

theorem Significant.dropWhile_zeros (ht : Significant t) (z) (rest) :
    (replicate z '0' ++ (t ++ rest)).dropWhile (· == '0') = t ++ rest := by
  obtain ⟨c, cs, rfl⟩ := exists_cons_of_ne_nil ht.ne_nil
  have hc : c ≠ '0' := by simpa using ht.head
  simp [hc]

/-- The formatted text of significant digits is never `-0`. -/
theorem Significant.formatPlain_ne_negZero (ht : Significant t) (negative) (exp) :
    formatPlain negative t exp ≠ ['-', '0'] := by
  obtain ⟨c, cs, rfl⟩ := exists_cons_of_ne_nil ht.ne_nil
  have hc : c ≠ '0' := by simpa using ht.head
  have hdigit : c.isDigit = true := ht.digits c (by simp)
  have hminus : c ≠ '-' := by
    rintro rfl
    exact absurd hdigit (by decide)
  intro h
  have hmem : c ∈ formatPlain negative (c :: cs) exp := by
    rw [formatPlain_eq_plain negative ht.ne_nil]
    exact mem_append_right _ (mem_plain_of_mem (by simp) _)
  rw [h] at hmem
  simp [hc, hminus] at hmem

/-- Validation of significant digits with any zeros around them: they are accepted exactly in
range, and the zeros only move the point. -/
theorem normalizeDigits_significant (negative) (ht : Significant t) (z k offset) (r) :
    normalizeDigits negative (replicate z '0' ++ (t ++ replicate k '0')) offset = .ok r ↔
      InRange t (offset + k) ∧ r = String.ofList (formatPlain negative t (offset + k)) := by
  have hzeros : (t ++ replicate k '0').length - t.length = k := by simp
  simp only [normalizeDigits, ht.dropWhile_zeros, ht.trimTrailing_append_zeros, hzeros,
    List.isEmpty_iff, append_eq_nil_iff, ht.ne_nil, false_and, if_false,
    ht.formatPlain_ne_negZero, and_false]
  constructor
  · intro h
    iterate 4 (split at h; · cases h)
    cases h
    exact ⟨⟨by omega, by omega, by omega⟩, rfl⟩
  · rintro ⟨⟨hle, hmax, hmin⟩, rfl⟩
    have hmaxDigits : maxSignificantDigits = 38 := rfl
    have hmaxExponent : maxExponent = 125 := rfl
    have hminExponent : minExponent = -130 := rfl
    rw [if_neg (by omega), if_neg (by omega), if_neg (by omega), if_neg (by omega)]

theorem trimTrailing_dropWhile_significant {ds} (hd : AllDigits ds)
    (hne : trimTrailing (ds.dropWhile (· == '0')) ≠ []) :
    Significant (trimTrailing (ds.dropWhile (· == '0'))) where
  digits := fun c hc => hd c ((dropWhile_sublist _).subset (mem_of_mem_trimTrailing hc))
  head := by
    have hsplit := trimTrailing_append_zeros (ds.dropWhile (· == '0'))
    obtain ⟨c, cs, hcs⟩ := exists_cons_of_ne_nil hne
    rw [hcs] at hsplit ⊢
    have hhead := head?_dropWhile_not (· == '0') ds
    rw [← hsplit] at hhead
    simpa using hhead
  last := by
    rw [getLast?_eq_some_getLast hne]
    simpa using getLast_trimTrailing_ne hne
  ne_nil := hne

theorem normalizeDigits_ok {negative ds offset r} (hd : AllDigits ds)
    (h : normalizeDigits negative ds offset = .ok r) :
    r = "0" ∨ ∃ t exp, Significant t ∧ InRange t exp ∧
      r = String.ofList (formatPlain negative t exp) := by
  unfold normalizeDigits at h
  simp only at h
  split at h
  · cases h
    exact .inl rfl
  split at h
  · cases h
    exact .inl rfl
  rename_i hne
  rw [List.isEmpty_iff] at hne
  have ht := trimTrailing_dropWhile_significant hd hne
  iterate 4 (split at h; · cases h)
  rw [if_neg fun hz => ht.formatPlain_ne_negZero _ _ hz.2] at h
  cases h
  exact .inr ⟨_, _, ht, ⟨by omega, by omega, by omega⟩, rfl⟩

variable {s : String}

theorem validateAndNormalizeNumber_ok {r} (h : validateAndNormalizeNumber s = .ok r) :
    ∃ negative ds offset, AllDigits ds ∧ normalizeDigits negative ds offset = .ok r := by
  obtain ⟨p, hp⟩ := exists_spellsNumber h
  rw [hp.validate_eq] at h
  exact ⟨_, _, _, hp.digits, h⟩

theorem isNormal_iff (s) : IsNormal s ↔ s = "0" ∨ ∃ negative t exp, Significant t ∧ InRange t exp ∧
      s = String.ofList (formatPlain negative t exp) := by
  constructor
  · intro h
    obtain ⟨negative, ds, offset, hd, hnorm⟩ := validateAndNormalizeNumber_ok h
    exact (normalizeDigits_ok hd hnorm).imp_right fun ⟨t, exp, ht⟩ => ⟨negative, t, exp, ht⟩
  rintro (rfl | ⟨negative, t, exp, ht, hrange, rfl⟩)
  · decide
  have hdigits := ht.digits.append (allDigits_zeros exp.toNat)
  have hexp : exp = -(((-exp).toNat : Nat) : Int) + ((exp.toNat : Nat) : Int) := by omega
  rw [IsNormal, formatPlain_eq_plain negative ht.ne_nil,
    validateAndNormalizeNumber_plain negative hdigits, pad,
    normalizeDigits_significant negative ht, ← hexp, formatPlain_eq_plain negative ht.ne_nil]
  exact ⟨hrange, rfl⟩

theorem IsNormal.isValidNumber (h : IsNormal s) : IsValidNumber s := ⟨s, h⟩

theorem IsNormal.exists_plain (h : IsNormal s) : ∃ negative ds scale, ds ≠ [] ∧ AllDigits ds ∧
      s = String.ofList (signText negative ++ plain ds scale) := by
  rcases (isNormal_iff s).mp h with rfl | ⟨negative, t, exp, ht, -, rfl⟩
  · exact ⟨false, ['0'], 0, by simp, allDigits_zeros 1, by decide⟩
  · exact ⟨negative, t ++ replicate exp.toNat '0', (-exp).toNat, by simp [ht.ne_nil],
      ht.digits.append (allDigits_zeros _), by rw [formatPlain_eq_plain negative ht.ne_nil]⟩

/-- Whether a plain text is in normal form shows at its end: it has no fraction, or the fraction
does not end in zero. -/
theorem isNormal_plain_iff (negative) (ht : Significant t) (k scale) (hvalid : IsValidNumber
      (String.ofList (signText negative ++ plain (t ++ replicate k '0') scale))) :
    IsNormal (String.ofList (signText negative ++ plain (t ++ replicate k '0') scale)) ↔
      scale = 0 ∨ k = 0 := by
  have hdigits (n : Nat) := ht.digits.append (allDigits_zeros n)
  obtain ⟨r, hr⟩ := hvalid
  rw [validateAndNormalizeNumber_plain negative (hdigits k), pad,
    normalizeDigits_significant negative ht] at hr
  rw [IsNormal, validateAndNormalizeNumber_plain negative (hdigits k), pad,
    normalizeDigits_significant negative ht, formatPlain_eq_plain negative ht.ne_nil,
    String.ofList_inj, append_cancel_left_eq]
  constructor
  · rintro ⟨-, heq⟩
    have := plain_scale_inj (hdigits k) (hdigits _) heq
    omega
  intro hzero
  refine ⟨hr.1, ?_⟩
  rcases hzero with rfl | rfl
  · rw [show (-((0 : Nat) : Int) + k).toNat = k by omega,
      show (-(-((0 : Nat) : Int) + k)).toNat = 0 by omega]
  · rw [show (-(scale : Int) + (0 : Nat)).toNat = 0 by omega,
      show (-(-(scale : Int) + (0 : Nat))).toNat = scale by omega]

theorem isNormal_zero_iff (scale) : IsNormal (String.ofList (plain ['0'] scale)) ↔ scale = 0 := by
  have hdigits : AllDigits ['0'] := allDigits_zeros 1
  have hpad : pad ['0'] scale = replicate (scale + 1) '0' := by
    exact replicate_succ'.symm
  have hvalidate : validateAndNormalizeNumber (String.ofList (plain ['0'] scale)) = .ok "0" := by
    have := validateAndNormalizeNumber_plain false hdigits scale
    rw [hpad] at this
    simpa [normalizeDigits, signText] using this
  rw [IsNormal, hvalidate]
  constructor
  · intro h
    have htext : ['0'] = plain ['0'] scale := by
      simpa using congrArg String.toList (Except.ok.inj h)
    exact (plain_scale_inj hdigits hdigits ((plain_zero (by simp)).trans htext)).symm
  · rintro rfl
    decide

theorem significant_trimTrailing_toDigits {n} (hn : 0 < n) :
    Significant (trimTrailing (toDigits 10 n)) := by
  have hhead := head?_toDigits_ne_zero hn
  have hdrop : (toDigits 10 n).dropWhile (· == '0') = toDigits 10 n := by
    obtain ⟨c, cs, hcs⟩ := exists_cons_of_ne_nil (toDigits_ne_nil (n := n) (b := 10))
    rw [hcs] at hhead ⊢
    have hc : c ≠ '0' := by simpa using hhead
    simp [hc]
  rw [← hdrop]
  apply trimTrailing_dropWhile_significant (allDigits_toDigits n)
  rw [hdrop]
  intro hnil
  have hsplit := trimTrailing_append_zeros (toDigits 10 n)
  rw [hnil, nil_append] at hsplit
  rw [← hsplit, head?_replicate] at hhead
  have hlen := length_toDigits_pos (b := 10) (n := n)
  simp at hhead

theorem trailing_toDigits_eq_zero_iff (n) :
    (toDigits 10 n).length - (trimTrailing (toDigits 10 n)).length = 0 ↔ n % 10 ≠ 0 := by
  obtain ⟨front, hfront⟩ := toDigits_eq_concat n
  rw [hfront]
  by_cases hlast : (n % 10).digitChar = '0'
  · have hlen : (trimTrailing front).length ≤ front.length :=
      IsPrefix.length_le <| rdropWhile_prefix _ _
    rw [hlast, show front ++ ['0'] = front ++ replicate 1 '0' from rfl,
      trimTrailing_append_replicate]
    rw [digitChar_eq_zero] at hlast
    simp only [length_append, length_replicate]
    omega
  · rw [trimTrailing_concat_of_ne hlast]
    rw [digitChar_eq_zero] at hlast
    simp [hlast]

theorem IsNormal.exponent_notMem (h : IsNormal s) : 'E' ∉ s.toList := by
  obtain ⟨negative, ds, scale, -, hd, rfl⟩ := h.exists_plain
  rw [String.toList_ofList, mem_append]
  rintro (hsign | hplain)
  · cases negative <;> simp [signText] at hsign
  · rcases mem_plain hd hplain with hdigit | hpoint
    · exact absurd hdigit (by decide)
    · exact absurd hpoint (by decide)

end ExtendDb
