import ExtendDb.Theory.DecimalText

/-!
# Netstrings

A part is framed as its size in decimal, a colon, the part and a comma.  Frames put one after the
other can be told apart whatever the parts hold, because the size says where a part ends.
-/

namespace Netstring

open DecimalText List

def size (weight : Char → Nat) (part : List Char) : Nat := (part.map weight).sum

def frame (weight : Char → Nat) (part : List Char) : List Char :=
  Nat.toDigits 10 (size weight part) ++ ':' :: (part ++ [','])

def encode (weight : Char → Nat) (parts : List (List Char)) : List Char :=
  parts.flatMap (frame weight)

variable {weight : Char → Nat}

theorem size_append (p q) : size weight (p ++ q) = size weight p + size weight q := by
  simp [size]

variable (hpos : ∀ c, 0 < weight c)
include hpos

theorem eq_nil_of_size_eq_zero {p} (h : size weight p = 0) : p = [] := by
  cases p with
  | nil => rfl
  | cons c p =>
    have := hpos c
    simp only [size, map_cons, sum_cons] at h
    omega

theorem append_inj_of_size {p q rest rest'} (h : p ++ rest = q ++ rest')
    (hsize : size weight p = size weight q) :
    p = q ∧ rest = rest' := by
  rcases append_eq_append_iff.mp h with ⟨more, rfl, rfl⟩ | ⟨more, rfl, rfl⟩
  all_goals
    rw [size_append] at hsize
    rw [eq_nil_of_size_eq_zero hpos (show size weight more = 0 by omega)]
    simp

theorem frame_append_inj {p q rest rest'} (h : frame weight p ++ rest = frame weight q ++ rest') :
    p = q ∧ rest = rest' := by
  have hcolon (n : Nat) : ∀ c ∈ Nat.toDigits 10 n, (c == ':') = false := by
    intro c hc
    rw [beq_eq_false_iff_ne]
    rintro rfl
    exact absurd (allDigits_toDigits n _ hc) (by decide)
  simp only [frame, append_assoc, cons_append] at h
  have hsplit := congrArg (splitOnce (· == ':')) h
  rw [splitOnce_append _ (hcolon _) rfl, splitOnce_append _ (hcolon _) rfl, Option.some.injEq,
    Prod.mk.injEq] at hsplit
  have hsize : size weight p = size weight q := by
    have := congrArg (Nat.ofDigitChars 10 · 0) hsplit.1
    simpa using this
  obtain ⟨rfl, htail⟩ := append_inj_of_size hpos hsplit.2 hsize
  exact ⟨rfl, (cons.inj htail).2⟩

theorem encode_injective : Function.Injective (encode weight) := by
  have hne (p rest : List Char) : frame weight p ++ rest ≠ [] := by simp [frame]
  intro ps qs h
  induction ps generalizing qs with
  | nil =>
    cases qs with
    | nil => rfl
    | cons q qs => exact absurd h.symm (hne q (encode weight qs))
  | cons p ps ih =>
    cases qs with
    | nil => exact absurd h (hne p (encode weight ps))
    | cons q qs =>
      obtain ⟨rfl, hrest⟩ := frame_append_inj hpos h
      rw [ih hrest]

end Netstring
