import ExtendDb.BackupFormat.RoundTrip

/-!
# Keys held from one item to the next

`KeyOrder::compare` orders the keys a table accepts, and a held key stands for the item it was last
given, whatever it held before.
-/

namespace ExtendDb

open Fallible KeyOrder

/-- `dst.clear()` and `dst.push_str(src)`. -/
def setString (_dst src : String) : String := "" ++ src

namespace HeldKey

def assign (self : HeldKey) (key : CheckedKey) : HeldKey where
  hash := match self.hash, key.hash with
    | .s dst, .s src => .s (setString dst src)
    | .n dst, .n src => .n (setString dst src)
    | .b _, .b src => .b src
    | _, src => src
  hashB64 := match self.hashB64, key.hash with
    | some text, .b _ => some (setString text key.hashText)
    | none, .b _ => some key.hashText
    | _, _ => none
  range := match self.range, key.range with
    | some (.s dst), some (.s src) => some (.s (setString dst src))
    | some (.b _), some (.b src) => some (.b src)
    | some (.n dst _), some (.n src parsed) => some (.n (setString dst src) parsed)
    | _, src => src

/-- Nothing of the key held before is left. -/
theorem assign_eq_new (self : HeldKey) (key) : self.assign key = new key := by
  obtain ⟨hash, text, range⟩ := key
  rw [assign, new, mk.injEq]
  refine ⟨?_, ?_, ?_⟩
  · cases self.hash <;> cases hash <;> simp [setString]
  · cases self.hashB64 <;> cases hash <;> simp [setString]
  · rcases self.range with _ | (_ | _ | _) <;> rcases range with _ | (_ | _ | _) <;> simp [setString]

end HeldKey

/-- A key held through some `new` and `assign`, the last of them with the key of this item. -/
inductive KeyOrder.Holding (bd : BigDecimalCrate) (base64 : Base64Engine) (order : KeyOrder) :
    Item → HeldKey → Prop where
  | new {item key} (hkey : order.checkedKey bd base64 item = .ok key) :
      Holding bd base64 order item (.new key)
  | assign {previous item held key} (hheld : Holding bd base64 order previous held)
      (hkey : order.checkedKey bd base64 item = .ok key) :
      Holding bd base64 order item (held.assign key)

variable {bd : BigDecimalCrate} {base64 : Base64Engine} {order : KeyOrder} {item : Item}

theorem KeyOrder.Holding.eq_new {held} (h : order.Holding bd base64 item held) :
    ∃ key, order.HoldsKey bd base64 item key ∧ held = .new key := by
  cases h with
  | new hkey => exact ⟨_, checkedKey_eq_ok.mp hkey, rfl⟩
  | assign hheld hkey => exact ⟨_, checkedKey_eq_ok.mp hkey, HeldKey.assign_eq_new ..⟩

theorem KeyOrder.HoldsKey.congr {other : Item} {key} (h : order.HoldsKey bd base64 item key)
    (hsame : ∀ attr ∈ order.attributes, OrdMap.get? item attr.1 = OrdMap.get? other attr.1) :
    order.HoldsKey bd base64 other key := by
  refine ⟨(hsame _ (.head _)).symm.trans h.hash, h.hashChecked, h.hashText, ?_⟩
  have hrange := h.range
  cases hkey : order.range with
  | none => simpa only [hkey] using hrange
  | some attr =>
    simp only [hkey] at hrange
    obtain ⟨r, hr, hget, hchecked⟩ := hrange
    exact ⟨r, hr, (hsame attr (by simp [attributes, hkey])).symm.trans hget, hchecked⟩

/-- The order of the keys a table accepts, and of the keys held of them. -/
theorem keyOrder_total (bd : BigDecimalCrate) (hbd : bd.Documented) (base64 : Base64Engine)
    (hbase64 : base64.Documented) (keySchema : List KeySchemaElement)
    (attributeDefinitions : List AttributeDefinition) (order : KeyOrder)
    (horder : resolve keySchema attributeDefinitions = .ok order) :
    (∀ a b c, order.validateKeyItem a = .ok () → order.validateKeyItem b = .ok () →
      order.validateKeyItem c = .ok () →
      order.compare bd base64 a a = .ok .eq ∧
      (∃ o, order.compare bd base64 a b = .ok o ∧ order.compare bd base64 b a = .ok o.swap ∧
        (o = .eq ↔ ∀ attr ∈ order.attributes, OrdMap.get? a attr.1 = OrdMap.get? b attr.1)) ∧
      (order.compare bd base64 a b ≠ .ok .gt → order.compare bd base64 b c ≠ .ok .gt →
        order.compare bd base64 a c ≠ .ok .gt)) ∧
    ∀ item held, order.Holding bd base64 item held →
      (∀ other key, order.checkedKey bd base64 other = .ok key →
        order.compare bd base64 item other = .ok (held.asChecked.cmp bd key)) ∧
      order.compare bd base64 (held.toItem order) item = .ok .eq := by
  have hself {x y : Item} {k : CheckedKey} (hx : order.HoldsKey bd base64 x k)
      (hy : order.HoldsKey bd base64 y k) : order.compare bd base64 x y = .ok .eq := by
    rw [hx.compare_eq hy, (hx.compares hbd hy).eq_eq.mpr rfl]
  constructor
  · intro a b c ha hb hc
    obtain ⟨ka, hka⟩ := exists_holdsKey hbd base64 fun _ => validateKeyItem_ok ha
    obtain ⟨kb, hkb⟩ := exists_holdsKey hbd base64 fun _ => validateKeyItem_ok hb
    obtain ⟨kc, hkc⟩ := exists_holdsKey hbd base64 fun _ => validateKeyItem_ok hc
    have hab := hka.compares hbd hkb
    refine ⟨hself hka hka, ⟨_, hka.compare_eq hkb, ?_, ?_⟩, ?_⟩
    · rw [hkb.compare_eq hka]
      exact congrArg Except.ok ((hkb.compares hbd hka).inj (hab.swap))
    · rw [hab.eq_eq]
      refine ⟨fun h attr hattr => hka.get?_eq hbd hbase64 hkb h hattr, fun h => ?_⟩
      rw [(hka.congr h).unique hkb]
    · simp only [hka.compare_eq hkb, hkb.compare_eq hkc, hka.compare_eq hkc, ne_eq, Except.ok.injEq]
      intro h h'
      exact (hka.compares hbd hkc).ne_gt.mpr
        ((hab.ne_gt.mp h).trans ((hkb.compares hbd hkc).ne_gt.mp h'))
  · intro item held hheld
    obtain ⟨k, hk, rfl⟩ := hheld.eq_new
    refine ⟨fun other key hkey => ?_, ?_⟩
    · rw [hk.asChecked_new]
      exact hk.compare_eq (checkedKey_eq_ok.mp hkey)
    · exact hself (holdsKey_toItem (resolve_ok horder).2 hk).1 hk

def numberOrder : KeyOrder := ⟨("pk", .s), some ("sk", .n)⟩

def numberedKey (n : String) : Item := [("pk", .s "a"), ("sk", .n n)]

/-- A held key that is first that of `9` and then that of `10`. -/
theorem keyOrder_total_reassigned :
    (∃ o, compare .reference .standard numberOrder (numberedKey "9") (numberedKey "10") = .ok o ∧
      o ≠ .eq) ∧
    ∃ first second, numberOrder.checkedKey .reference .standard (numberedKey "9") = .ok first ∧
      numberOrder.checkedKey .reference .standard (numberedKey "10") = .ok second ∧
      let held := (HeldKey.new first).assign second
      compare .reference .standard numberOrder (numberedKey "10") (numberedKey "9") =
        .ok (held.asChecked.cmp .reference first) ∧
      compare .reference .standard numberOrder (held.toItem numberOrder) (numberedKey "10") =
        .ok .eq := by
  obtain ⟨hitems, hheld⟩ := keyOrder_total .reference BigDecimalCrate.reference_documented
    .standard Base64Engine.standard_documented [⟨"pk", .hash⟩, ⟨"sk", .range⟩]
    [⟨"pk", .s⟩, ⟨"sk", .n⟩] numberOrder rfl
  obtain ⟨o, ho, -, heq⟩ :=
    (hitems (numberedKey "9") (numberedKey "10") (numberedKey "9") rfl rfl rfl).2.1
  have hchecked : ∃ key, numberOrder.checkedKey .reference .standard (numberedKey "9") = .ok key :=
    ⟨_, rfl⟩
  obtain ⟨first, hfirst⟩ := hchecked
  have hagain : ∃ key, numberOrder.checkedKey .reference .standard (numberedKey "10") = .ok key :=
    ⟨_, rfl⟩
  obtain ⟨second, hsecond⟩ := hagain
  obtain ⟨hcompare, hsame⟩ := hheld _ _ (.assign (.new hfirst) hsecond)
  exact ⟨⟨o, ho, fun h => absurd (heq.mp h _ (.tail _ (.head _))) (by decide)⟩, first, second,
    hfirst, hsecond, hcompare _ _ hfirst, hsame⟩

end ExtendDb
