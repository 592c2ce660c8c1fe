import Mathlib.Tactic.Cases

/-!
# Standard base64

Three bytes become four characters; a last group of one or two bytes is padded with `=`.  Decoding
refuses anything but the text that encoding writes.
-/

namespace Base64

open Option

/-- The character of a six-bit number. -/
def alphabet (n : Nat) : Char :=
  if n < 26 then Char.ofNat (n + 65)
  else if n < 52 then Char.ofNat (n - 26 + 97)
  else if n < 62 then Char.ofNat (n - 52 + 48)
  else if n = 62 then '+'
  else '/'

/-- The six-bit number of a character. -/
def sextet (c : Char) : Option Nat :=
  if 'A' ≤ c ∧ c ≤ 'Z' then some (c.toNat - 65)
  else if 'a' ≤ c ∧ c ≤ 'z' then some (c.toNat - 97 + 26)
  else if '0' ≤ c ∧ c ≤ '9' then some (c.toNat - 48 + 52)
  else if c = '+' then some 62
  else if c = '/' then some 63
  else none

def encodeChars : List UInt8 → List Char
  | [] => []
  | [a] =>
    let n := a.toNat * 16
    [alphabet (n / 64), alphabet (n % 64), '=', '=']
  | [a, b] =>
    let n := (a.toNat * 256 + b.toNat) * 4
    [alphabet (n / 4096), alphabet (n / 64 % 64), alphabet (n % 64), '=']
  | a :: b :: c :: rest =>
    let n := (a.toNat * 256 + b.toNat) * 256 + c.toNat
    alphabet (n / 262144) :: alphabet (n / 4096 % 64) :: alphabet (n / 64 % 64) ::
      alphabet (n % 64) :: encodeChars rest

def encode (bytes : List UInt8) : String := String.ofList (encodeChars bytes)

/-- A last group of one byte; the four bits behind it must be zero. -/
def decodeOne (w x : Char) : Option (List UInt8) := do
  let n := (← sextet w) * 64 + (← sextet x)
  if n % 16 = 0 then some [.ofNat (n / 16)] else none

/-- A last group of two bytes; the two bits behind them must be zero. -/
def decodeTwo (w x y : Char) : Option (List UInt8) := do
  let n := ((← sextet w) * 64 + (← sextet x)) * 64 + (← sextet y)
  if n % 4 = 0 then some [.ofNat (n / 1024), .ofNat (n / 4 % 256)] else none

def decodeThree (w x y z : Char) : Option (List UInt8) := do
  let n := (((← sextet w) * 64 + (← sextet x)) * 64 + (← sextet y)) * 64 + (← sextet z)
  some [.ofNat (n / 65536), .ofNat (n / 256 % 256), .ofNat (n % 256)]

def decodeChars : List Char → Option (List UInt8)
  | [] => some []
  | [w, x, '=', '='] => decodeOne w x
  | [w, x, y, '='] => decodeTwo w x y
  | w :: x :: y :: z :: rest => do
    let group ← decodeThree w x y z
    let tail ← decodeChars rest
    some (group ++ tail)
  | _ => none

def decode (s : String) : Option (List UInt8) := decodeChars s.toList

theorem sextet_alphabet {n : Nat} (h : n < 64) : sextet (alphabet n) = some n := by
  have hall : ∀ k : Fin 64, sextet (alphabet k) = some k.val := by decide
  exact hall ⟨n, h⟩

theorem alphabet_ne_pad {n : Nat} (h : n < 64) : alphabet n ≠ '=' := by
  intro hpad
  have hsextet := sextet_alphabet h
  rw [hpad] at hsextet
  cases hsextet

private theorem ofNat_eq {m : Nat} {a} (h : m = a.toNat) : UInt8.ofNat m = a := by
  rw [h, UInt8.ofNat_toNat]

theorem decodeChars_encodeChars (bytes) : decodeChars (encodeChars bytes) = some bytes := by
  fun_induction encodeChars bytes with
  | case1 => rfl
  | case2 a n =>
    have ha := a.toNat_lt
    have hn : n / 64 * 64 + n % 64 = n := by omega
    rw [decodeChars, decodeOne, sextet_alphabet (by omega), sextet_alphabet (by omega)]
    simp only [bind_eq_bind, bind_some]
    rw [if_pos (by omega), ofNat_eq (a := a) (by omega)]
  | case3 a b n =>
    have ha := a.toNat_lt
    have hb := b.toNat_lt
    have hn : (n / 4096 * 64 + n / 64 % 64) * 64 + n % 64 = n := by omega
    rw [decodeChars, decodeTwo, sextet_alphabet (by omega), sextet_alphabet (by omega),
      sextet_alphabet (by omega)]
    · simp only [bind_eq_bind, bind_some]
      rw [if_pos (by omega), ofNat_eq (a := a) (by omega), ofNat_eq (a := b) (by omega)]
    · exact fun h => alphabet_ne_pad (by omega) h
  | case4 a b c rest n ih =>
    have ha := a.toNat_lt
    have hb := b.toNat_lt
    have hc := c.toNat_lt
    have hn : ((n / 262144 * 64 + n / 4096 % 64) * 64 + n / 64 % 64) * 64 + n % 64 = n := by omega
    rw [decodeChars, decodeThree, sextet_alphabet (by omega), sextet_alphabet (by omega),
      sextet_alphabet (by omega), sextet_alphabet (by omega), ih]
    · simp only [bind_eq_bind, bind_some]
      rw [ofNat_eq (a := a) (by omega), ofNat_eq (a := b) (by omega), ofNat_eq (a := c) (by omega)]
      rfl
    · exact fun _ h => absurd h (alphabet_ne_pad (by omega))
    · exact fun h => absurd h (alphabet_ne_pad (by omega))

theorem decode_encode (bytes) : decode (encode bytes) = some bytes := by
  rw [decode, encode, String.toList_ofList, decodeChars_encodeChars]

end Base64
