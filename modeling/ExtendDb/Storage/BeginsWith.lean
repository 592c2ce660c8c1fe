import ExtendDb.Storage.ColumnOrder
import ExtendDb.BackupFormat.DataFile

/-!
# `begins_with` as a range of sort keys

The backends ask for the keys from the prefix on and below an upper end of their own making.
-/

namespace ExtendDb

open List Utf8 PrefixRange String

def inKeyRange (tests : List (CompareOp × BoundValue)) (key : BoundValue) : Bool :=
  tests.all fun test => test.1.accepts (key.cmp test.2)

/-- The comparisons with a prefix and the upper end of its range. -/
def rangeTests (lower : BoundValue) (upper : Option BoundValue) : List (CompareOp × BoundValue) :=
  (.ge, lower) :: upper.toList.map (.lt, ·)

theorem inKeyRange_text {p} {u : Option String} {key} :
    inKeyRange (rangeTests (.text p) (u.map .text)) (.text key) = true ↔
      ¬key.toList < p.toList ∧ ∀ upper ∈ u.map toList, key.toList < upper := by
  cases u <;> simp [inKeyRange, rangeTests, BoundValue.cmp, accepts_ge_text, accepts_lt_text]

theorem inKeyRange_blob {p} {upper : Option Bytes} {key} :
    inKeyRange (rangeTests (.blob p) (upper.map .blob)) (.blob key) = true ↔
      ¬key < p ∧ ∀ u ∈ upper, key < u := by
  cases upper <;> simp [inKeyRange, rangeTests, BoundValue.cmp,
    accepts_ge_iff (compare_bytes_compares _ _), accepts_lt_iff (compare_bytes_compares _ _)]

/-! ## SQLite, PostgreSQL and Cassandra -/

inductive RangeBackend where
  | sqlite
  | postgres
  | cassandra
deriving DecidableEq

/-- Also `? || char(1114111)` and `$p || chr(1114111)`. -/
def stringUpperBound (text : String) : String := text.push maxChar

def binaryUpperBound (bytes : Bytes) : Option Bytes := binaryPrefixUpperBound bytes

/-- The upper end for a prefix of `0xFF` only. -/
def fillerBound : Bytes := replicate 1025 0xFF

def incrementBytes (bytes : Bytes) : Bytes := (binaryPrefixUpperBound bytes).getD fillerBound

namespace RangeBackend

def binaryUpper : RangeBackend → Bytes → Option Bytes
  | .sqlite => binaryPrefixUpperBound
  | .postgres => some ∘ incrementBytes
  | .cassandra => binaryUpperBound

def beginsWith (backend : RangeBackend) : BoundValue → List (CompareOp × BoundValue)
  | .text s => rangeTests (.text s) (some (.text (stringUpperBound s)))
  | .blob b => rangeTests (.blob b) ((backend.binaryUpper b).map .blob)

end RangeBackend

open RangeBackend

theorem binaryPrefixUpperBound_eq_none {p} :
    binaryPrefixUpperBound p = none ↔ ∀ b ∈ p, b = 0xFF := by
  rw [binaryPrefixUpperBound_eq_raise, raise_eq_none]
  exact forall₂_congr fun _ _ => nextByte_eq_none

theorem isUpperBound_none {p : Bytes} (h : ∀ b ∈ p, b = 0xFF) : IsUpperBound p none := by
  rw [← binaryPrefixUpperBound_eq_none.mpr h]
  exact binaryPrefixUpperBound_isUpperBound p

/-- The range for a string holds the keys with the prefix but those that go on with the highest code
point; the range for bytes is exact, but for PostgreSQL's upper end of a prefix of `0xFF` only. -/
theorem beginsWith_range_iff (backend : RangeBackend) :
    (∀ p key : String, inKeyRange (backend.beginsWith (.text p)) (.text key) = true ↔
      p.toList <+: key.toList ∧ ¬(stringUpperBound p).toList <+: key.toList) ∧
    ∀ p key : Bytes, inKeyRange (backend.beginsWith (.blob p)) (.blob key) = true ↔
      p <+: key ∧ ¬(backend = .postgres ∧ (∀ b ∈ p, b = 0xFF) ∧ fillerBound <+: key) := by
  refine ⟨fun p key => ?_, fun p key => ?_⟩
  · have hrange := range_push_iff le_maxChar p.toList key.toList
    rw [beginsWith]
    refine (inKeyRange_text (u := some (stringUpperBound p))).trans ?_
    simpa [stringUpperBound] using hrange
  · have hexact := (binaryPrefixUpperBound_isUpperBound p).iff key
    rw [beginsWith, inKeyRange_blob, ← hexact]
    cases backend with
    | sqlite | cassandra => simp [binaryUpper, binaryUpperBound]
    | postgres =>
      have hfiller : IsUpperBound fillerBound none := isUpperBound_none fun b hb => by
        unfold fillerBound at hb
        exact eq_of_mem_replicate hb
      rw [← binaryPrefixUpperBound_eq_none]
      cases hupper : binaryPrefixUpperBound p with
      | some upper => simp [binaryUpper, incrementBytes, hupper]
      | none =>
        -- the filler has no upper end either: below it is what does not start with it
        simp [binaryUpper, incrementBytes, hupper, ← hfiller key]

/-- The key goes on behind the prefix with the highest code point and is not asked for. -/
theorem beginsWith_range_cut : "a".toList <+: (stringUpperBound "a").toList ∧
      ¬inKeyRange (RangeBackend.sqlite.beginsWith (.text "a"))
        (.text (stringUpperBound "a")) = true := by
  decide

/-! ## MongoDB -/

def binarySkToHex (bytes : Bytes) : String := hexEncode bytes

/-- The loop over `char::from_u32`, which has no value in the surrogate gap. -/
def nextScalar (next : Nat) (h : next < 0x110000) : Char :=
  if hvalid : next.isValidChar then Char.ofNat next
  else nextScalar (next + 1) (by
    simp only [Nat.isValidChar, not_or, not_and] at hvalid
    omega)
termination_by 0x110000 - next

def nextChar (c : Char) : Option Char :=
  if h : c.toNat < 0x10FFFF then some (nextScalar (c.toNat + 1) (by omega)) else none

def nextStringPrefix (s : String) : Option String := (raise nextChar s.toList).map ofList

/-- The filter on the sort key field for `begins_with`. -/
def buildSkFilter : AttributeValue → Except StorageError (List (CompareOp × BoundValue))
  | .s p => .ok (rangeTests (.text p) ((nextStringPrefix p).map .text))
  | .b b =>
    let lo := binarySkToHex b
    .ok (rangeTests (.text lo) ((nextStringPrefix lo).map .text))
  | _ => .error (.validation "begins_with requires string or binary sort key")

theorem nextScalar_least (next) (h : next < 0x110000) : next ≤ (nextScalar next h).toNat ∧
      ∀ d : Char, next ≤ d.toNat → (nextScalar next h).toNat ≤ d.toNat := by
  fun_induction nextScalar next h with
  | case1 next h hvalid =>
    rw [Char.ofNat, dif_pos hvalid]
    exact ⟨le_refl next, fun d hd => hd⟩
  | case2 next h hvalid ih =>
    refine ⟨by omega, fun d hd => ih.2 d ?_⟩
    have hne : next ≠ d.toNat := by
      rintro rfl
      exact hvalid d.valid
    omega

theorem nextStringPrefix_isUpperBound (p) :
    IsUpperBound p.toList ((nextStringPrefix p).map toList) := by
  have hraise : (nextStringPrefix p).map toList = raise nextChar p.toList := by
    cases h : raise nextChar p.toList <;> simp [nextStringPrefix, h]
  rw [hraise]
  refine raise_isUpperBound (fun a b hnext => ?_) (fun a hnext c => ?_) p.toList
  · unfold nextChar at hnext
    split at hnext
    · obtain ⟨hle, hleast⟩ := nextScalar_least (a.toNat + 1) (by omega)
      cases hnext
      exact ⟨hle, hleast⟩
    · cases hnext
  · unfold nextChar at hnext
    split at hnext
    · cases hnext
    · rename_i hmax
      have hc : c.toNat ≤ 0x10FFFF := le_maxChar c
      exact Char.le_def.mpr (UInt32.le_iff_toNat_le.mpr (by simp only [Char.toNat] at *; omega))

def hexPair (b : UInt8) : List Char := [hexDigit (b.toNat / 16), hexDigit (b.toNat % 16)]

theorem hexDigit_lt : ∀ m < 16, ∀ n < 16, m < n → hexDigit m < hexDigit n := by decide

theorem hexPair_strictMono : StrictMono (flatMap hexPair) := by
  intro a b h
  induction h with
  | nil => exact nil_lt_cons ..
  | cons _ ih => exact append_left_lt ih
  | @rel x _ y _ hxy =>
    rw [UInt8.lt_iff_toNat_lt] at hxy
    have hx := x.toNat_lt
    have hy := y.toNat_lt
    simp only [flatMap_cons, hexPair, cons_append, nil_append, cons_lt_cons_iff]
    by_cases hhigh : x.toNat / 16 = y.toNat / 16
    · exact .inr ⟨by rw [hhigh], .inl (hexDigit_lt _ (by omega) _ (by omega) (by omega))⟩
    · exact .inl (hexDigit_lt _ (by omega) _ (by omega) (by omega))

theorem hexPair_prefix {p k : Bytes} : p.flatMap hexPair <+: k.flatMap hexPair ↔ p <+: k := by
  constructor
  · intro h
    induction p generalizing k with
    | nil => exact nil_prefix
    | cons b p ih =>
      cases k with
      | nil => simp [hexPair] at h
      | cons c k =>
        simp only [flatMap_cons, hexPair, cons_append, nil_append, cons_prefix_cons] at h
        have hbc : [b].flatMap hexPair = [c].flatMap hexPair := by
          simp [hexPair, h.1, h.2.1]
        cases hexPair_strictMono.injective hbc
        exact cons_prefix_cons.mpr ⟨rfl, ih h.2.2⟩
  · rintro ⟨t, rfl⟩
    rw [flatMap_append]
    exact prefix_append ..

theorem beginsWith_filter_iff {p key : String} :
    inKeyRange (rangeTests (.text p) ((nextStringPrefix p).map .text)) (.text key) = true ↔
      p.toList <+: key.toList := by
  rw [inKeyRange_text, (nextStringPrefix_isUpperBound p).iff]

/-- The hex texts of two keys compare as the keys do, the filter for `begins_with` admits exactly
the keys with the prefix, and its upper end lies above every text with the prefix and not above any
other text that is above the prefix. -/
theorem mongo_begins_with :
    (∀ a b : Bytes, compareBytes (binarySkToHex a) (binarySkToHex b) = compare a b) ∧
    (∀ p key : String, ∃ tests, buildSkFilter (.s p) = .ok tests ∧
      (inKeyRange tests (.text key) = true ↔ p.toList <+: key.toList)) ∧
    (∀ p key : Bytes, ∃ tests, buildSkFilter (.b p) = .ok tests ∧
      (inKeyRange tests (.text (binarySkToHex key)) = true ↔ p <+: key)) ∧
    ∀ p upper x : String, nextStringPrefix p = some upper →
      (p.toList <+: x.toList → x.toList < upper.toList) ∧
      (¬p.toList <+: x.toList → p.toList < x.toList → upper.toList ≤ x.toList) := by
  refine ⟨fun a b => ?_, fun p key => ⟨_, rfl, beginsWith_filter_iff⟩,
    fun p key => ⟨_, rfl, beginsWith_filter_iff.trans ?_⟩, fun p upper x hupper => ?_⟩
  · have h := compareBytes_compares (binarySkToHex a) (binarySkToHex b)
    rw [binarySkToHex, binarySkToHex, hexEncode, hexEncode, toList_ofList, toList_ofList] at h
    refine h.inj ?_
    exact (hexPair_strictMono.compares ..).mpr (compare_bytes_compares a b)
  · rw [binarySkToHex, binarySkToHex, hexEncode, hexEncode, toList_ofList, toList_ofList]
    exact hexPair_prefix
  · have hbound := nextStringPrefix_isUpperBound p
    rw [hupper] at hbound
    refine ⟨fun h => ((hbound x.toList).mpr h).2, fun hnot hlt => not_lt.mp fun hbelow => ?_⟩
    exact hnot ((hbound x.toList).mp ⟨lt_asymm hlt, hbelow⟩)

end ExtendDb
