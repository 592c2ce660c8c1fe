import ExtendDb.BackupFormat.KeyOrder
import ExtendDb.BigDecimal.Value
import Mathlib.Order.Hom.Lex

/-!
# Key ranges of data files

A key-ordered backup records the first and the last key of every data file.
-/

namespace ExtendDb

open Utf8 Fallible OrdMap Sum

/-! ## Errors -/

inductive RangeEnd where
  | first
  | last
deriving DecidableEq

inductive OrderViolation where
  | notAfterPreviousFile (last : Item)
  | notAfterPrevious (n : Nat)
  | notRangeFirst
  | afterRangeLast (n : Nat)
  | noItems
  | notRangeLast (n : Nat)

inductive KeyRangeError where
  | noKeyAttribute (name : String)
  | notEndpoint (key : Item) (reason : FormatError)
  | notKey (which : RangeEnd) (key : Item) (reason : KeyRangeError)
  | format (reason : FormatError)
  | violation (v : OrderViolation)

/-! ## Checked keys -/

inductive RangeKey where
  | s (text : String)
  | b (bytes : Bytes)
  | n (text : String) (value : BigDecimal)
deriving DecidableEq

structure CheckedKey where
  hash : AttributeValue
  hashText : String
  range : Option RangeKey

structure HeldKey where
  hash : AttributeValue
  hashB64 : Option String
  range : Option RangeKey

def CheckedKey.cmp (bd : BigDecimalCrate) (a b : CheckedKey) : Ordering :=
  (compareBytes a.hashText b.hashText).then
    (match a.range, b.range with
    | some (.s x), some (.s y) => compareBytes x y
    | some (.b x), some (.b y) => compare x y
    | some (.n _ x), some (.n _ y) => bd.cmp x y
    | x, y => compare x.isSome y.isSome)

namespace HeldKey

def new (key : CheckedKey) : HeldKey where
  hash := key.hash
  hashB64 := match key.hash with
    | .b _ => some key.hashText
    | _ => none
  range := key.range

def asChecked (key : HeldKey) : CheckedKey where
  hash := key.hash
  hashText := match key.hashB64, key.hash with
    | some text, _ => text
    | none, .s s => s
    | none, .n n => n
    | none, _ => ""
  range := key.range

end HeldKey

def RangeKey.toValue : RangeKey → AttributeValue
  | .s text => .s text
  | .b bytes => .b bytes
  | .n text _ => .n text

namespace KeyOrder

def keyItem (order : KeyOrder) (hash : AttributeValue) (range : Option AttributeValue) : Item :=
  match order.range, range with
  | some (name, _), some value => insert [(order.hash.1, hash)] name value
  | _, _ => [(order.hash.1, hash)]

def valueOf (item : Item) (name : String) : Except KeyRangeError AttributeValue :=
  match get? item name with
  | some value => .ok value
  | none => .error (.noKeyAttribute name)

def rangeValueOf (order : KeyOrder) (item : Item) : Except KeyRangeError (Option AttributeValue) :=
  match order.range with
  | some (name, _) => some <$> valueOf item name
  | none => .ok none

def checkKeyValues (order : KeyOrder) (hash : AttributeValue) (range : Option AttributeValue) :
    Except FormatError Unit := do
  checkKeyValue order.hash.1 order.hash.2 hash
  match order.range, range with
  | some (name, ty), some value => checkKeyValue name ty value
  | _, _ => pure ()

def keyValues (order : KeyOrder) (item : Item) :
    Except KeyRangeError (AttributeValue × Option AttributeValue) := do
  let hash ← valueOf item order.hash.1
  let range ← order.rangeValueOf item
  (order.checkKeyValues hash range).mapError (.notEndpoint (order.keyItem hash range) ·)
  pure (hash, range)

def rangeKey (bd : BigDecimalCrate) (name : String) : AttributeValue → Except KeyRangeError RangeKey
  | .s s => .ok (.s s)
  | .b b => .ok (.b b)
  | .n n => (RangeKey.n n <$> parseNumber bd name n).mapError .format
  | _ => .error (.format (.invalidKey (.notScalar name)))

def rangeKeyOf (bd : BigDecimalCrate) (order : KeyOrder) (range : Option AttributeValue) :
    Except KeyRangeError (Option RangeKey) :=
  match order.range, range with
  | some (name, _), some value => some <$> rangeKey bd name value
  | _, _ => .ok none

def checkedKey (bd : BigDecimalCrate) (base64 : Base64Engine) (order : KeyOrder) (item : Item) :
    Except KeyRangeError CheckedKey := do
  let (hash, range) ← order.keyValues item
  let range ← order.rangeKeyOf bd range
  match hashKeyText base64 hash with
  | some hashText => pure ⟨hash, hashText, range⟩
  | none => throw (.format (.invalidKey (.notScalar order.hash.1)))

end KeyOrder

def HeldKey.toItem (key : HeldKey) (order : KeyOrder) : Item :=
  order.keyItem key.hash (key.range.map RangeKey.toValue)

structure KeyRange where
  first : Item
  last : Item

/-! ## The writer's tracker and the reader's check -/

structure KeyRangeTracker where
  order : KeyOrder
  first : Option HeldKey
  latest : Option HeldKey
  items : Nat

namespace KeyRangeTracker

def new (order : KeyOrder) : KeyRangeTracker := ⟨order, none, none, 0⟩

def pushChecked (bd : BigDecimalCrate) (tracker : KeyRangeTracker) (key : CheckedKey) :
    Except KeyRangeError KeyRangeTracker :=
  let held := HeldKey.new key
  let next : KeyRangeTracker :=
    { tracker with
      first := if tracker.items = 0 then some held else tracker.first
      latest := some held
      items := tracker.items + 1 }
  match tracker.latest with
  | none => .ok next
  | some latest =>
    if latest.asChecked.cmp bd key ≠ .lt then
      .error (.violation (if tracker.items = 0 then
          .notAfterPreviousFile (latest.toItem tracker.order)
        else .notAfterPrevious (tracker.items + 1)))
    else .ok next

def push (bd : BigDecimalCrate) (base64 : Base64Engine) (tracker : KeyRangeTracker) (item : Item) :
    Except KeyRangeError KeyRangeTracker := do
  tracker.pushChecked bd (← tracker.order.checkedKey bd base64 item)

def nextFile (tracker : KeyRangeTracker) : Option KeyRange × KeyRangeTracker :=
  match tracker.latest, tracker.first with
  | some latest, some first =>
    (some ⟨first.toItem tracker.order, latest.toItem tracker.order⟩,
      { tracker with first := none, items := 0 })
  | _, _ => (none, tracker)

def finish (tracker : KeyRangeTracker) : Option KeyRange := do
  let first ← tracker.first
  let latest ← tracker.latest
  pure ⟨first.toItem tracker.order, latest.toItem tracker.order⟩

end KeyRangeTracker

structure KeyRangeCheck where
  tracker : KeyRangeTracker
  range : Except KeyRangeError (HeldKey × HeldKey)

namespace KeyRangeCheck

variable (bd : BigDecimalCrate) (base64 : Base64Engine)

def endpoint (order : KeyOrder) (which : RangeEnd) (key : Item) : Except KeyRangeError HeldKey :=
  (do
    (order.validateKeyItem key).mapError KeyRangeError.format
    HeldKey.new <$> order.checkedKey bd base64 key).mapError (.notKey which key ·)

def new (order : KeyOrder) (range : KeyRange) : KeyRangeCheck where
  tracker := .new order
  range := do
    let first ← endpoint bd base64 order .first range.first
    let last ← endpoint bd base64 order .last range.last
    pure (first, last)

def check (self : KeyRangeCheck) (item : Item) : Except KeyRangeError KeyRangeCheck := do
  let (first, last) ← self.range
  let key ← self.tracker.order.checkedKey bd base64 item
  let n := self.tracker.items + 1
  if n = 1 ∧ key.cmp bd first.asChecked ≠ .eq then
    throw (.violation .notRangeFirst)
  if key.cmp bd last.asChecked = .gt then
    throw (.violation (.afterRangeLast n))
  let tracker ← self.tracker.pushChecked bd key
  pure { self with tracker }

def finish (self : KeyRangeCheck) : Except KeyRangeError Unit := do
  let (_, last) ← self.range
  match self.tracker.latest with
  | none => throw (.violation .noItems)
  | some latest =>
    if latest.asChecked.cmp bd last.asChecked ≠ .eq then
      throw (.violation (.notRangeLast self.tracker.items))

end KeyRangeCheck

/-! ## What a checked key is -/

structure KeyOrder.HoldsKey (bd : BigDecimalCrate) (base64 : Base64Engine) (order : KeyOrder)
    (item : Item) (key : CheckedKey) : Prop where
  hash : get? item order.hash.1 = some key.hash
  hashChecked : checkKeyValue order.hash.1 order.hash.2 key.hash = .ok ()
  hashText : hashKeyText base64 key.hash = some key.hashText
  range : match order.range with
    | none => key.range = none
    | some (name, ty) => ∃ r, key.range = some r ∧ get? item name = some r.toValue ∧
        checkKeyValue name ty r.toValue = .ok () ∧ rangeKey bd name r.toValue = .ok r

variable {bd : BigDecimalCrate} {base64 : Base64Engine} {order : KeyOrder}

namespace KeyOrder

variable {item : Item} {value : AttributeValue}

theorem valueOf_eq_ok {name} : valueOf item name = .ok value ↔ get? item name = some value := by
  rw [valueOf]
  cases get? item name <;> simp

theorem rangeKey_toValue {name r} (h : rangeKey bd name value = .ok r) : r.toValue = value := by
  cases value with
  | s s | b b => cases h; rfl
  | n n =>
    obtain ⟨d, -, rfl⟩ := map_eq_ok.mp (mapError_eq_ok.mp h)
    rfl
  | _ => cases h

theorem checkedKey_eq_ok {key} :
    order.checkedKey bd base64 item = .ok key ↔ order.HoldsKey bd base64 item key := by
  constructor
  · intro h
    obtain ⟨⟨hash, range⟩, hvalues, h⟩ := unbind h
    obtain ⟨hash', hhash, hvalues⟩ := unbind hvalues
    obtain ⟨range', hrange', hvalues⟩ := unbind hvalues
    obtain ⟨hchecks, hvalues⟩ := check_then_eq_ok.mp hvalues
    cases hvalues
    obtain ⟨hcheck, hcheckRange⟩ := check_then_eq_ok.mp (mapError_eq_ok.mp hchecks)
    obtain ⟨r?, hrange, h⟩ := unbind h
    cases htext : hashKeyText base64 hash with
    | none => simp [htext] at h
    | some text =>
      simp only [htext] at h
      cases h
      refine ⟨valueOf_eq_ok.mp hhash, hcheck, htext, ?_⟩
      unfold rangeValueOf at hrange'
      unfold rangeKeyOf at hrange
      cases hkey : order.range with
      | none =>
        simp only [hkey] at hrange
        cases hrange
        rfl
      | some attr =>
        simp only [hkey] at hrange hrange' hcheckRange
        obtain ⟨value, hvalue, rfl⟩ := map_eq_ok.mp hrange'
        obtain ⟨r, hr, rfl⟩ := map_eq_ok.mp hrange
        cases rangeKey_toValue hr
        exact ⟨r, rfl, valueOf_eq_ok.mp hvalue, hcheckRange, hr⟩
  · intro ⟨hhash, hcheck, htext, hrange⟩
    obtain ⟨hash, text, range⟩ := key
    cases hkey : order.range with
    | none =>
      simp only [hkey] at hrange
      subst hrange
      simp [checkedKey, keyValues, valueOf, hhash, rangeValueOf, checkKeyValues, hcheck, hkey,
        rangeKeyOf, htext, Except.mapError]
    | some attr =>
      simp only [hkey] at hrange
      obtain ⟨r, rfl, hget, hchecked, hparsed⟩ := hrange
      simp [checkedKey, keyValues, valueOf, hhash, rangeValueOf, hget, checkKeyValues, hcheck,
        hkey, hchecked, rangeKeyOf, hparsed, htext, Except.mapError]

end KeyOrder

/-! ## Keys in a linear order -/

namespace CheckedKey

def rank (key : CheckedKey) : Bytes ×ₗ (Bytes ⊕ₗ ℚ) :=
  toLex (bytes key.hashText, match key.range with
    | none => inlₗ []
    | some (.s text) => inlₗ (bytes text)
    | some (.b b) => inlₗ b
    | some (.n _ d) => inrₗ d.value)

def SameShape (a b : CheckedKey) : Prop :=
  a.range.map (scalarType ∘ RangeKey.toValue) = b.range.map (scalarType ∘ RangeKey.toValue)

theorem compares_lex {α β : Type*} [LinearOrder α] [LinearOrder β] {a a' : α} {b b' : β}
    {o o' : Ordering} (ha : o.Compares a a') (hb : o'.Compares b b') :
    (o.then o').Compares (toLex (a, b)) (toLex (a', b')) := by
  cases o with
  | lt | gt => exact Prod.Lex.toLex_lt_toLex.mpr (.inl ha)
  | eq =>
    cases ha
    cases o' with
    | lt | gt => exact Prod.Lex.toLex_lt_toLex.mpr (.inr ⟨rfl, hb⟩)
    | eq => exact congrArg (fun c => toLex (a, c)) hb

theorem compares_inl {α β : Type*} [LinearOrder α] [LinearOrder β] {a a'} {o : Ordering}
    (h : o.Compares a a') : o.Compares (inlₗ a : α ⊕ₗ β) (inlₗ a') := by
  cases o with
  | lt | gt => exact Sum.Lex.inl_lt_inl_iff.mpr h
  | eq => exact congrArg inlₗ h

theorem compares_inr {α β : Type*} [LinearOrder α] [LinearOrder β] {b b'} {o : Ordering}
    (h : o.Compares b b') : o.Compares (inrₗ b : α ⊕ₗ β) (inrₗ b') := by
  cases o with
  | lt | gt => exact Sum.Lex.inr_lt_inr_iff.mpr h
  | eq => exact congrArg inrₗ h

theorem cmp_compares {bd} (hbd : bd.Documented) {a b : CheckedKey} (h : a.SameShape b) :
    (a.cmp bd b).Compares a.rank b.rank := by
  have hbytes (s t : String) : (compareBytes s t).Compares (bytes s) (bytes t) :=
    compareLex_compares compare_compares ..
  refine compares_lex (hbytes ..) ?_
  rw [SameShape] at h
  match ha : a.range, hb : b.range with
  | none, none => exact rfl
  | some (.s x), some (.s y) => exact compares_inl (hbytes x y)
  | some (.b x), some (.b y) => exact compares_inl (compareLex_compares compare_compares ..)
  | some (.n _ x), some (.n _ y) =>
    have hvalues : (bd.cmp x y).Compares x.value y.value := by
      rw [hbd.cmp_eq]
      exact BigDecimal.exactCmp_compares x y
    exact compares_inr hvalues
  | none, some r | some r, none => simp [ha, hb] at h
  | some (.s _), some (.b _) | some (.s _), some (.n _ _) | some (.b _), some (.s _)
  | some (.b _), some (.n _ _) | some (.n _ _), some (.s _) | some (.n _ _), some (.b _) =>
    simp [ha, hb, scalarType, RangeKey.toValue] at h

end CheckedKey

theorem checkKeyValue_scalarType {name ty value} (h : checkKeyValue name ty value = .ok ()) :
    scalarType value = some ty :=
  checkScalarType_eq_ok.mp (check_then_eq_ok.mp (check_then_eq_ok.mp h).2).1

namespace KeyOrder.HoldsKey

variable {a b : Item} {key key' : CheckedKey}

theorem sameShape (ha : order.HoldsKey bd base64 a key) (hb : order.HoldsKey bd base64 b key') :
    key.SameShape key' := by
  have hra := ha.range
  have hrb := hb.range
  rw [CheckedKey.SameShape]
  cases hrange : order.range with
  | none =>
    simp only [hrange] at hra hrb
    rw [hra, hrb]
  | some attr =>
    simp only [hrange] at hra hrb
    obtain ⟨r, hr, -, hcheck, -⟩ := hra
    obtain ⟨r', hr', -, hcheck', -⟩ := hrb
    simp [hr, hr', checkKeyValue_scalarType hcheck, checkKeyValue_scalarType hcheck']

theorem hashText_eq_ok (h : order.HoldsKey bd base64 a key) :
    KeyOrder.hashText base64 a order.hash = .ok key.hashText := by
  simp [KeyOrder.hashText, h.hash, checkKeyValue_scalarType h.hashChecked, h.hashText]

theorem compare_eq (ha : order.HoldsKey bd base64 a key) (hb : order.HoldsKey bd base64 b key') :
    order.compare bd base64 a b = .ok (key.cmp bd key') := by
  have hra := ha.range
  have hrb := hb.range
  rw [compare, ha.hashText_eq_ok, hb.hashText_eq_ok, ok_bind, ok_bind, CheckedKey.cmp]
  cases compareBytes key.hashText key'.hashText with
  | lt | gt => rfl
  | eq =>
    cases hrange : order.range with
    | none =>
      simp only [hrange] at hra hrb
      rw [hra, hrb]
      rfl
    | some attr =>
      obtain ⟨name, ty⟩ := attr
      simp only [hrange] at hra hrb
      obtain ⟨r, hr, hget, hcheck, hparsed⟩ := hra
      obtain ⟨r', hr', hget', hcheck', hparsed'⟩ := hrb
      have hty := checkKeyValue_scalarType hcheck
      have hty' := checkKeyValue_scalarType hcheck'
      rw [hr, hr']
      simp only [hget, hget']
      cases r <;> cases hty <;> cases r' <;> cases hty'
      · rfl
      · rfl
      obtain ⟨d, hd, hmk⟩ := map_eq_ok.mp (mapError_eq_ok.mp hparsed)
      obtain ⟨d', hd', hmk'⟩ := map_eq_ok.mp (mapError_eq_ok.mp hparsed')
      cases hmk
      cases hmk'
      simp only [RangeKey.toValue]
      rw [hd, hd']
      rfl

theorem asChecked_new (h : order.HoldsKey bd base64 a key) : (HeldKey.new key).asChecked = key := by
  have htext := h.hashText
  obtain ⟨hash, text, range⟩ := key
  cases hash <;> simp [hashKeyText] at htext <;> simp [HeldKey.new, HeldKey.asChecked, htext]

theorem unique (h : order.HoldsKey bd base64 a key) (h' : order.HoldsKey bd base64 a key') :
    key = key' :=
  Except.ok.inj ((checkedKey_eq_ok.mpr h).symm.trans (checkedKey_eq_ok.mpr h'))

theorem compares (hbd : bd.Documented) (ha : order.HoldsKey bd base64 a key)
    (hb : order.HoldsKey bd base64 b key') : (key.cmp bd key').Compares key.rank key'.rank :=
  CheckedKey.cmp_compares hbd (ha.sameShape hb)

end KeyOrder.HoldsKey

theorem IsNormal.eq_of_parse {bd : BigDecimalCrate} (hbd : bd.Documented) {s t d e}
    (hs : IsNormal s) (ht : IsNormal t) (hd : bd.parse s = some d) (he : bd.parse t = some e)
    (h : d.value = e.value) : s = t := by
  have hread {u : String} {f : BigDecimal} (hu : IsNormal u) (hf : bd.parse u = some f) :
      numberValue u = some f.value := by
    obtain ⟨negative, ds, scale, hne, hdigits, rfl⟩ := hu.exists_plain
    rw [hbd.parse_plain negative ds scale hne hdigits] at hf
    rw [numberValue, BigDecimal.readText_plain negative hdigits, hf]
    rfl
  exact hs.eq_of_numberValue_eq ht (by rw [hread hs hd, hread ht he, h])

namespace KeyOrder

variable {a b c : Item}

theorem hash_eq_of_text (hbase64 : base64.Documented) {name ty v w text}
    (hv : checkKeyValue name ty v = .ok ()) (hw : checkKeyValue name ty w = .ok ())
    (htv : hashKeyText base64 v = some text) (htw : hashKeyText base64 w = some text) : v = w := by
  have hty := checkKeyValue_scalarType hv
  have hty' := checkKeyValue_scalarType hw
  cases v <;> cases hty <;> cases w <;> cases hty' <;> cases htv <;>
    have htext := Option.some.inj htw
  · exact congrArg AttributeValue.s htext.symm
  · exact congrArg AttributeValue.n htext.symm
  · exact congrArg AttributeValue.b (hbase64.encode_injective htext.symm)

theorem HoldsKey.get?_eq (hbd : bd.Documented) (hbase64 : base64.Documented) {key key' : CheckedKey}
    (ha : order.HoldsKey bd base64 a key) (hb : order.HoldsKey bd base64 b key')
    (h : key.rank = key'.rank) {attr} (hattr : attr ∈ order.attributes) :
    get? a attr.1 = get? b attr.1 := by
  obtain ⟨hbytes, hranges⟩ := Prod.mk.inj (toLex_inj.mp h)
  have htext := bytes_inj.mp hbytes
  rcases List.mem_cons.mp hattr with rfl | hattr
  · rw [ha.hash, hb.hash, hash_eq_of_text hbase64 ha.hashChecked hb.hashChecked
      (htext ▸ ha.hashText) hb.hashText]
  have hsome : order.range = some attr := by simpa using hattr
  obtain ⟨name, ty⟩ := attr
  have hra := ha.range
  have hrb := hb.range
  simp only [hsome] at hra hrb
  obtain ⟨r, hr, hget, hcheck, hparsed⟩ := hra
  obtain ⟨r', hr', hget', hcheck', hparsed'⟩ := hrb
  have hty := checkKeyValue_scalarType hcheck
  have hty' := checkKeyValue_scalarType hcheck'
  rw [hr, hr'] at hranges
  rw [hget, hget']
  cases r <;> cases hty <;> cases r' <;> cases hty'
  · exact congrArg (some ∘ AttributeValue.s) (bytes_inj.mp (inl_injective hranges))
  · exact congrArg (some ∘ AttributeValue.b) (inl_injective hranges)
  obtain ⟨s, hs, hnormal⟩ := checkKeyValue_number hcheck
  obtain ⟨t, ht, hnormal'⟩ := checkKeyValue_number hcheck'
  cases hs
  cases ht
  obtain ⟨d, hd, hmk⟩ := map_eq_ok.mp (mapError_eq_ok.mp hparsed)
  obtain ⟨e, he, hmk'⟩ := map_eq_ok.mp (mapError_eq_ok.mp hparsed')
  cases hmk
  cases hmk'
  have hparse {n : String} {f : BigDecimal} (h : parseNumber bd name n = .ok f) :
      bd.parse n = some f := by
    rw [parseNumber] at h
    cases hn : bd.parse n <;> rw [hn] at h <;> cases h
    rfl
  exact congrArg (some ∘ AttributeValue.n)
    (hnormal.eq_of_parse hbd hnormal' (hparse hd) (hparse he) (inr_injective hranges))

def Before (bd : BigDecimalCrate) (base64 : Base64Engine) (order : KeyOrder) (a b : Item) : Prop :=
  ∃ key key', order.HoldsKey bd base64 a key ∧ order.HoldsKey bd base64 b key' ∧
    key.rank < key'.rank

instance : IsTrans Item (order.Before bd base64) where
  trans a b c := by
    rintro ⟨ka, kb, ha, hb, hab⟩ ⟨kb', kc, hb', hc, hbc⟩
    cases hb.unique hb'
    exact ⟨ka, kc, ha, hc, hab.trans hbc⟩

theorem Before.compare_eq (hbd : bd.Documented) (h : order.Before bd base64 a b) :
    order.compare bd base64 a b = .ok .lt := by
  obtain ⟨ka, kb, ha, hb, hlt⟩ := h
  rw [ha.compare_eq hb, (ha.compares hbd hb).eq_lt.mpr hlt]

end KeyOrder

end ExtendDb
