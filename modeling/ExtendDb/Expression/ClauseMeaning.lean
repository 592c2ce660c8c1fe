import ExtendDb.BigDecimal.Value
import ExtendDb.Expression.KeyCondition
import ExtendDb.Expression.WrittenClause

/-!
# What a clause says

The meaning of a written clause on an item: strings and bytes compare by their bytes, numbers by
value, and `begins_with` is the prefix relation.  A condition as the parser keeps it, with its
attribute first, means the same.
-/

namespace ExtendDb

open Utf8 OrdMap CompareOp

def keyCompare : AttributeValue → AttributeValue → Option Ordering
  | .s x, .s y => some (compareBytes x y)
  | .n x, .n y => do
    let a ← numberValue x
    let b ← numberValue y
    pure (compare a b)
  | .b x, .b y => some (compare x y)
  | _, _ => none

def KeyRelated (op : CompareOp) (v w : AttributeValue) : Prop :=
  ∃ o, keyCompare v w = some o ∧ op.accepts o = true

/-- A clause without its attribute, its values filled in. -/
inductive KeyTest where
  | compare (op : CompareOp) (value : AttributeValue)
  | reversed (value : AttributeValue) (op : CompareOp)
  | between (low high : AttributeValue)
  | beginsWith (value : AttributeValue)

namespace KeyTest

def Passes : KeyTest → AttributeValue → Prop
  | .compare op w, v => KeyRelated op v w
  | .reversed w op, v => KeyRelated op w v
  | .between low high, v => KeyRelated .le low v ∧ KeyRelated .le v high
  | .beginsWith (.s p), .s x => p.toList <+: x.toList
  | .beginsWith (.b p), .b x => p <+: x
  | .beginsWith _, _ => False

/-- The string goes on behind the prefix with the highest code point. -/
def CutOff : KeyTest → AttributeValue → Prop
  | .beginsWith (.s p), .s x => p.toList ++ [Char.ofNat 1114111] <+: x.toList
  | _, _ => False

end KeyTest

def AttrRef.resolve (maps : ExpressionMaps) : AttrRef → Option String
  | .ident name => some name
  | .nameRef name => get? maps.names name

namespace WrittenClause

variable (maps : ExpressionMaps)

def test : WrittenClause → Option KeyTest
  | .compare _ op value => (get? maps.values value).map (.compare op)
  | .reversed value op _ => (get? maps.values value).map (.reversed · op)
  | .between _ low high => do
    let l ← get? maps.values low
    let h ← get? maps.values high
    pure (.between l h)
  | .beginsWith _ _ value => (get? maps.values value).map .beginsWith

def PassesOn (c : WrittenClause) (v : AttributeValue) : Prop :=
  ∃ t, c.test maps = some t ∧ t.Passes v

def CutOffOn (c : WrittenClause) (v : AttributeValue) : Prop :=
  ∃ t, c.test maps = some t ∧ t.CutOff v

def Holds (c : WrittenClause) (item : Item) : Prop :=
  ∃ name v, c.attr.resolve maps = some name ∧ get? item name = some v ∧ c.PassesOn maps v

def isEquality : WrittenClause → Bool
  | .compare _ op _ | .reversed _ op _ => op == .eq
  | .between .. | .beginsWith .. => false

end WrittenClause

/-! ## Conditions with the attribute first -/

theorem compareBytes_swap (s t) : compareBytes t s = (compareBytes s t).swap :=
  (compareBytes_compares t s).inj (Ordering.compares_swap.mpr (compareBytes_compares s t))

theorem compare_bytes_compares (x y : Bytes) : (compare x y).Compares x y :=
  compareLex_compares compare_compares x y

theorem compare_bytes_swap (x y : Bytes) : compare y x = (compare x y).swap :=
  (compare_bytes_compares y x).inj (Ordering.compares_swap.mpr (compare_bytes_compares x y))

theorem keyCompare_swap (v w : AttributeValue) :
    keyCompare w v = (keyCompare v w).map Ordering.swap := by
  cases v <;> cases w <;> try rfl
  case s.s x y => exact congrArg some (compareBytes_swap x y)
  case n.n x y =>
      simp only [keyCompare]
      cases numberValue x <;> cases numberValue y <;> try rfl
      rename_i a b
      have hswap : compare b a = (compare a b).swap :=
        ((compare_iff b a).mp rfl).inj (Ordering.compares_swap.mpr ((compare_iff a b).mp rfl))
      exact congrArg some hswap
  case b.b x y => exact congrArg some (compare_bytes_swap x y)

theorem accepts_swap (op o) : (reverseComparator op).accepts o.swap = op.accepts o := by
  cases op <;> cases o <;> rfl

section

variable {α : Type} [LinearOrder α] {o : Ordering} {a b : α}

theorem accepts_lt_iff (h : o.Compares a b) : lt.accepts o = true ↔ a < b := by
  rw [accepts, beq_iff_eq, h.eq_lt]

theorem accepts_ge_iff (h : o.Compares a b) : ge.accepts o = true ↔ ¬a < b := by
  rw [accepts, bne_iff_ne, ne_eq, h.eq_lt]

end

theorem keyRelated_reverse (op v w) :
    KeyRelated (reverseComparator op) w v ↔ KeyRelated op v w := by
  simp only [KeyRelated, keyCompare_swap v w, Option.map_eq_some_iff]
  constructor
  · rintro ⟨_, ⟨o, ho, rfl⟩, haccepts⟩
    exact ⟨o, ho, by rwa [accepts_swap] at haccepts⟩
  · rintro ⟨o, ho, haccepts⟩
    exact ⟨o.swap, ⟨o, ho, rfl⟩, by rwa [accepts_swap]⟩

def SortKeyCondition.test (maps : ExpressionMaps) : SortKeyCondition → Option KeyTest
  | .compare _ op (.placeholder value) => (get? maps.values value).map (.compare op)
  | .between _ (.placeholder low) (.placeholder high) => do
    let l ← get? maps.values low
    let h ← get? maps.values high
    pure (.between l h)
  | .beginsWith _ (.placeholder value) => (get? maps.values value).map .beginsWith
  | _ => none

def WrittenClause.condition (c : WrittenClause) : SortKeyCondition := rawToSk c.raw

theorem rawToSk_rawCompare (path op value) :
    rawToSk (rawCompare path op value) = .compare path op value := by
  unfold rawCompare
  split
  · rename_i heq
    rw [heq]
    rfl
  · rfl

namespace WrittenClause

section

variable (attr : AttrRef) (op : CompareOp) (value high : String)

@[simp]
theorem condition_compare :
    (compare attr op value).condition = .compare attr.path op (.placeholder value) :=
  rawToSk_rawCompare ..

@[simp]
theorem condition_reversed : (reversed value op attr).condition =
      .compare attr.path (reverseComparator op) (.placeholder value) :=
  rawToSk_rawCompare ..

@[simp]
theorem condition_between : (between attr value high).condition =
      .between attr.path (.placeholder value) (.placeholder high) := rfl

@[simp]
theorem condition_beginsWith (function) :
    (beginsWith function attr value).condition = .beginsWith attr.path (.placeholder value) := rfl

end

@[simp]
theorem condition_path (c : WrittenClause) : c.condition.path = c.attr.path := by
  cases c <;> simp [SortKeyCondition.path, attr]

theorem passesOn_iff (maps) (c : WrittenClause) (v) :
    c.PassesOn maps v ↔ ∃ t, c.condition.test maps = some t ∧ t.Passes v := by
  cases c with
  | reversed value op attr =>
    have hreverse (w : AttributeValue) :
        KeyRelated op w v ↔ KeyRelated (reverseComparator op) v w :=
      (keyRelated_reverse op w v).symm
    simp [PassesOn, test, SortKeyCondition.test, KeyTest.Passes, hreverse]
  | _ => simp [PassesOn, test, SortKeyCondition.test]

theorem cutOffOn_iff (maps) (c : WrittenClause) (v) :
    c.CutOffOn maps v ↔ ∃ t, c.condition.test maps = some t ∧ t.CutOff v := by
  cases c <;> simp [CutOffOn, test, SortKeyCondition.test, KeyTest.CutOff]

end WrittenClause

end ExtendDb
