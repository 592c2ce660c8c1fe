import Mathlib.Data.List.DropRight
import Mathlib.Data.Char
import Mathlib.Tactic.Cases
import Mathlib.Algebra.Order.Group.Nat
import Mathlib.Algebra.Ring.Int.Defs
import Mathlib.Algebra.GroupWithZero.Nat

/-!
# Plain decimal text

Decimal numbers written without an exponent: a digit string with `scale` of its last digits behind
a point, padded on the left so that at least one digit stands before it.
-/

namespace DecimalText

open List Nat

/-! ## Splitting at a character -/

/-- Split at the first character satisfying `p`, which belongs to neither half. -/
def splitOnce (p : Char → Bool) : List Char → Option (List Char × List Char)
  | [] => none
  | c :: cs => if p c then some ([], cs) else (splitOnce p cs).map fun r => (c :: r.1, r.2)

variable {p : Char → Bool}

theorem splitOnce_eq_none {cs} (h : ∀ c ∈ cs, p c = false) : splitOnce p cs = none := by
  induction cs with
  | nil => rfl
  | cons c cs ih => simp [splitOnce, h c (by simp), ih fun d hd => h d (by simp [hd])]

variable {c : Char}

theorem splitOnce_append {xs} (ys) (hxs : ∀ d ∈ xs, p d = false) (hc : p c = true) :
    splitOnce p (xs ++ c :: ys) = some (xs, ys) := by
  induction xs with
  | nil => simp [splitOnce, hc]
  | cons x xs ih => simp [splitOnce, hxs x (by simp), ih fun d hd => hxs d (by simp [hd])]

/-! ## Integers -/

def parseInteger (bits : Nat) (cs : List Char) : Option Int :=
  let parseDigits (ds : List Char) : Option Nat :=
    if ds.isEmpty || !ds.all Char.isDigit then none else some (ofDigitChars 10 ds 0)
  let value : Option Int := match cs with
    | '-' :: ds => (parseDigits ds).map fun n => -(n : Int)
    | '+' :: ds => (parseDigits ds).map fun n => (n : Int)
    | ds => (parseDigits ds).map fun n => (n : Int)
  value.filter fun v => -2 ^ (bits - 1) ≤ v ∧ v < 2 ^ (bits - 1)

/-! ## Zeros at either end -/

def AllDigits (ds : List Char) : Prop := ∀ c ∈ ds, c.isDigit = true

theorem AllDigits.append {xs ys} (hx : AllDigits xs) (hy : AllDigits ys) :
    AllDigits (xs ++ ys) := by
  intro c hc
  exact (mem_append.mp hc).elim (hx c) (hy c)

theorem allDigits_zeros (k) : AllDigits (replicate k '0') := by
  intro c hc
  rw [eq_of_mem_replicate hc]
  rfl

/-- The digits without their trailing zeros. -/
def trimTrailing (ds : List Char) : List Char := ds.rdropWhile (· == '0')

theorem trimTrailing_append_zeros (ds) :
    trimTrailing ds ++ replicate (ds.length - (trimTrailing ds).length) '0' = ds := by
  induction ds using reverseRecOn with
  | nil => rfl
  | append_singleton ds d ih =>
    by_cases hd : d = '0'
    · subst hd
      have htrim : trimTrailing (ds ++ ['0']) = trimTrailing ds := by
        simp [trimTrailing]
      have hle : (trimTrailing ds).length ≤ ds.length := by
        have := congrArg length ih
        simp only [length_append] at this
        omega
      rw [htrim, length_append, length_singleton, Nat.sub_add_comm hle,
        replicate_succ', ← append_assoc, ih]
    · simp [trimTrailing, hd]

variable {ds : List Char}

theorem trimTrailing_concat_of_ne {d} (hd : d ≠ '0') : trimTrailing (ds ++ [d]) = ds ++ [d] := by
  simp [trimTrailing, hd]

theorem trimTrailing_append_replicate (ds) (k) :
    trimTrailing (ds ++ replicate k '0') = trimTrailing ds := by
  induction k with
  | zero => simp
  | succ k ih =>
    rw [replicate_succ', ← append_assoc, trimTrailing, rdropWhile_concat]
    exact ih

theorem mem_of_mem_trimTrailing (h : c ∈ trimTrailing ds) : c ∈ ds := by
  rw [← trimTrailing_append_zeros ds]
  exact mem_append_left _ h

theorem getLast_trimTrailing_ne (hne : trimTrailing ds ≠ []) :
    (trimTrailing ds).getLast hne ≠ '0' := by
  have hlast := rdropWhile_last_not (· == '0') ds hne
  rw [beq_iff_eq] at hlast
  exact hlast

/-! ## Layout -/

/-- `ds` with zeros in front so that more than `scale` digits are there. -/
def pad (ds : List Char) (scale : Nat) : List Char :=
  replicate (scale + 1 - ds.length) '0' ++ ds

def intPart (ds : List Char) (scale : Nat) : List Char :=
  (pad ds scale).take ((pad ds scale).length - scale)

def fracPart (ds : List Char) (scale : Nat) : List Char :=
  (pad ds scale).drop ((pad ds scale).length - scale)

/-- The digit string `ds` written with `scale` digits behind the point. -/
def plain (ds : List Char) (scale : Nat) : List Char :=
  intPart ds scale ++ if scale = 0 then [] else '.' :: fracPart ds scale

def signText (negative : Bool) : List Char := if negative then ['-'] else []

theorem length_pad (ds) (scale) : (pad ds scale).length = max ds.length (scale + 1) := by
  simp only [pad, length_append, length_replicate]
  omega

theorem intPart_append_fracPart (ds) (scale) :
    intPart ds scale ++ fracPart ds scale = pad ds scale :=
  take_append_drop ..

theorem length_fracPart (ds) (scale) : (fracPart ds scale).length = scale := by
  simp only [fracPart, length_drop, length_pad]
  omega

theorem intPart_ne_nil (ds) (scale) : intPart ds scale ≠ [] := by
  intro h
  have := congrArg length h
  simp only [intPart, length_take, length_pad, length_nil] at this
  omega

theorem AllDigits.pad (h : AllDigits ds) (scale) : AllDigits (pad ds scale) :=
  (allDigits_zeros _).append h

theorem AllDigits.intPart (h : AllDigits ds) (scale) : AllDigits (intPart ds scale) :=
  fun c hc => h.pad scale c (mem_of_mem_take hc)

theorem AllDigits.fracPart (h : AllDigits ds) (scale) : AllDigits (fracPart ds scale) :=
  fun c hc => h.pad scale c (mem_of_mem_drop hc)

variable {scale : Nat}

theorem pad_of_lt (h : scale < ds.length) : pad ds scale = ds := by
  rw [pad, show scale + 1 - ds.length = 0 by omega]
  rfl

theorem plain_zero (hne : ds ≠ []) : plain ds 0 = ds := by
  have hlen := length_pos_of_ne_nil hne
  simp [plain, intPart, pad_of_lt hlen]

theorem mem_plain (h : AllDigits ds) (hc : c ∈ plain ds scale) : c.isDigit = true ∨ c = '.' := by
  rw [plain, mem_append] at hc
  rcases hc with hc | hc
  · exact .inl (h.intPart scale c hc)
  split at hc
  · simp at hc
  · rcases mem_cons.mp hc with rfl | hc
    · exact .inr rfl
    · exact .inl (h.fracPart scale c hc)

theorem mem_plain_of_mem (hc : c ∈ ds) (scale) : c ∈ plain ds scale := by
  have hpad : c ∈ intPart ds scale ++ fracPart ds scale := by
    rw [intPart_append_fracPart]
    exact mem_append_right _ hc
  rw [plain]
  split
  · rename_i hscale
    subst hscale
    simpa [eq_nil_of_length_eq_zero (length_fracPart ds 0)] using hpad
  · simp only [mem_append] at hpad ⊢
    tauto

theorem point_ne_of_isDigit (h : c.isDigit = true) : (c == '.') = false := by
  rw [beq_eq_false_iff_ne]
  rintro rfl
  exact absurd h (by decide)

theorem splitOnce_point_plain (h : AllDigits ds) (scale) : splitOnce (· == '.') (plain ds scale) =
      if scale = 0 then none else some (intPart ds scale, fracPart ds scale) := by
  have hint : ∀ c ∈ intPart ds scale, (c == '.') = false :=
    fun c hc => point_ne_of_isDigit (h.intPart scale c hc)
  unfold plain
  split
  · rw [append_nil]
    exact splitOnce_eq_none hint
  · exact splitOnce_append _ hint rfl

theorem plain_scale_inj {ds' scale'} (h : AllDigits ds) (h' : AllDigits ds')
    (heq : plain ds scale = plain ds' scale') : scale = scale' := by
  have hsplit := splitOnce_point_plain h scale
  rw [heq, splitOnce_point_plain h' scale'] at hsplit
  by_cases h0 : scale = 0 <;> by_cases h0' : scale' = 0 <;> simp [h0, h0'] at hsplit
  · omega
  · have := congrArg length hsplit.2
    simp only [length_fracPart] at this
    omega

/-! ## Digits of a natural number -/

theorem allDigits_toDigits (n) : AllDigits (toDigits 10 n) :=
  fun _ hc => isDigit_of_mem_toDigits (by decide) (by decide) hc

theorem parseInteger_toString (bits : Nat) (v : Int) :
    parseInteger bits ((if 0 ≤ v then ['+'] else []) ++ (toString v).toList) =
      (some v).filter fun v => -2 ^ (bits - 1) ≤ v ∧ v < 2 ^ (bits - 1) := by
  have hall (n : Nat) : ¬ ∃ c ∈ toDigits 10 n, c.isDigit = false := fun ⟨c, hc, hdigit⟩ =>
    Bool.false_ne_true (hdigit.symm.trans (allDigits_toDigits n c hc))
  by_cases hsign : 0 ≤ v
  · obtain ⟨n, rfl⟩ := Int.eq_ofNat_of_zero_le hsign
    rw [show (toString (n : Int)).toList = toDigits 10 n from toList_repr]
    simp [parseInteger, hall]
  · obtain ⟨n, rfl⟩ := Int.eq_negSucc_of_lt_zero (Int.not_le.mp hsign)
    have htext : (toString (Int.negSucc n)).toList = '-' :: toDigits 10 (n + 1) := by
      rw [← toList_repr]
      exact String.toList_append
    rw [htext, if_neg hsign]
    simp [parseInteger, hall, Int.negSucc_eq]

theorem toDigits_eq_concat (n) : ∃ front, toDigits 10 n = front ++ [(n % 10).digitChar] := by
  by_cases hn : n < 10
  · exact ⟨[], by rw [toDigits_of_lt_base hn, mod_eq_of_lt hn, nil_append]⟩
  · exact ⟨_, toDigits_of_base_le (by decide) (by omega)⟩

theorem head?_toDigits_ne_zero {n} (hn : 0 < n) : (toDigits 10 n).head? ≠ some '0' := by
  induction n using Nat.strong_induction_on with
  | _ n ih =>
    by_cases hlt : n < 10
    · rw [toDigits_of_lt_base hlt]
      simp only [head?_cons, ne_eq, Option.some.injEq, digitChar_eq_zero]
      omega
    have hfront := ih (n / 10) (by omega) (by omega)
    rw [toDigits_of_base_le (by decide) (by omega), head?_append_of_ne_nil _ toDigits_ne_nil]
    exact hfront

end DecimalText
