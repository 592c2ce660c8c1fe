import Mathlib.Data.String.Basic
import Mathlib.Tactic.Cases

/-!
# Byte order of UTF-8 text

Comparing two texts by the bytes of their UTF-8 encodings is comparing them by code points.
-/

namespace Utf8

open String

instance byteOrder : LinearOrder UInt8 where
  le_refl := UInt8.le_refl
  le_trans := fun _ _ _ => UInt8.le_trans
  le_antisymm := fun _ _ => UInt8.le_antisymm
  le_total := UInt8.le_total
  lt_iff_le_not_ge := fun a b => by
    rw [UInt8.not_le]
    exact ⟨fun h => ⟨UInt8.le_of_lt h, h⟩, And.right⟩
  toDecidableLE := inferInstance
  toDecidableLT := inferInstance
  toDecidableEq := inferInstance

def encode (cs : List Char) : List UInt8 := cs.flatMap utf8EncodeChar

def bytes (s : String) : List UInt8 := encode s.toList

/-- Byte-wise comparison of two texts. -/
def compareBytes (s t : String) : Ordering := compare (bytes s) (bytes t)

@[simp]
theorem encode_cons (c cs) : encode (c :: cs) = utf8EncodeChar c ++ encode cs := rfl

/-! ## Order -/

theorem ofNat_lt_ofNat {m n : Nat} (hm : m < 256) (hn : n < 256) :
    UInt8.ofNat m < UInt8.ofNat n ↔ m < n := by
  rw [UInt8.lt_iff_toNat_lt, UInt8.toNat_ofNat_of_lt' hm, UInt8.toNat_ofNat_of_lt' hn]

theorem ofNat_inj {m n : Nat} (hm : m < 256) (hn : n < 256) :
    UInt8.ofNat m = UInt8.ofNat n ↔ m = n := by
  rw [← UInt8.toNat_inj, UInt8.toNat_ofNat_of_lt' hm, UInt8.toNat_ofNat_of_lt' hn]

theorem base64_lt {v w} (h : v < w) (hw : w < 0x200000) :
    v / 262144 % 8 < w / 262144 % 8 ∨ v / 262144 % 8 = w / 262144 % 8 ∧
      (v / 4096 % 64 < w / 4096 % 64 ∨ v / 4096 % 64 = w / 4096 % 64 ∧
        (v / 64 % 64 < w / 64 % 64 ∨ v / 64 % 64 = w / 64 % 64 ∧ v % 64 < w % 64)) := by
  have hdiv (n : Nat) : n / 4096 = n / 64 / 64 ∧ n / 262144 = n / 64 / 64 / 64 := by
    simp [Nat.div_div_eq_div_mul]
  rw [(hdiv v).1, (hdiv v).2, (hdiv w).1]
  omega

theorem utf8EncodeChar_append_lt {c d} (h : c < d) (xs ys) :
    utf8EncodeChar c ++ xs < utf8EncodeChar d ++ ys := by
  have hlt : c.val.toNat < d.val.toNat := h
  have hmax : d.val.toNat < 0x110000 := by
    rcases d.valid with hd | hd <;> omega
  have hdigits := base64_lt hlt (by omega)
  simp only [utf8EncodeChar]
  -- one case per pair of encoded lengths; a longer encoding has the larger first byte
  split_ifs <;> (try omega) <;>
    simp (disch := omega) only [List.cons_append, List.nil_append, List.cons_lt_cons_iff,
      ofNat_lt_ofNat, ofNat_inj] <;>
    omega

theorem encode_strictMono : StrictMono encode := by
  intro cs ds h
  induction h with
  | nil =>
    rw [encode_cons]
    obtain ⟨b, bs, hb⟩ := List.exists_cons_of_ne_nil (utf8EncodeChar_ne_nil)
    rw [hb]
    exact List.nil_lt_cons ..
  | cons _ ih =>
    exact List.append_left_lt ih
  | rel hcd =>
    exact utf8EncodeChar_append_lt hcd ..

@[simp]
theorem encode_inj {cs ds} : encode cs = encode ds ↔ cs = ds :=
  encode_strictMono.injective.eq_iff

@[simp]
theorem bytes_inj {s t} : bytes s = bytes t ↔ s = t := by
  rw [bytes, bytes, encode_inj, toList_inj]

theorem bytes_lt_bytes {s t} : bytes s < bytes t ↔ s.toList < t.toList :=
  encode_strictMono.lt_iff_lt

theorem compareLex_compares {α : Type*} [LinearOrder α] {f} (hf : ∀ x y, (f x y).Compares x y)
    (xs ys : List α) :
    (List.compareLex f xs ys).Compares xs ys := by
  induction xs generalizing ys with
  | nil =>
    cases ys with
    | nil => exact rfl
    | cons y ys => exact List.nil_lt_cons y ys
  | cons x xs ih =>
    cases ys with
    | nil => exact List.nil_lt_cons x xs
    | cons y ys =>
      rw [List.compareLex_cons_cons]
      have hxy := hf x y
      cases hcmp : f x y <;> rw [hcmp] at hxy
      · exact .rel hxy
      · cases hxy
        -- equal heads leave the comparison to the tails
        have htail := ih ys
        cases hrest : List.compareLex f xs ys <;> rw [hrest] at htail
        · exact .cons htail
        · exact congrArg (x :: ·) htail
        · exact .cons htail
      · exact .rel hxy

theorem compare_compares (x y : UInt8) : (compare x y).Compares x y := by
  change (compareOfLessAndEq x y).Compares x y
  unfold compareOfLessAndEq
  split
  · assumption
  split
  · assumption
  · rename_i hlt hne
    exact lt_of_le_of_ne (not_lt.mp hlt) (.symm hne)

theorem compareBytes_compares (s t : String) : (compareBytes s t).Compares s.toList t.toList := by
  have h : (compareBytes s t).Compares (bytes s) (bytes t) :=
    compareLex_compares compare_compares ..
  cases hcmp : compareBytes s t <;> rw [hcmp] at h
  · exact bytes_lt_bytes.mp h
  · exact encode_inj.mp h
  · exact bytes_lt_bytes.mp h

end Utf8
