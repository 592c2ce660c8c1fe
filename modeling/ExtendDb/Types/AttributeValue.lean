import ExtendDb.Theory.Utf8
import ExtendDb.Theory.OrdMap
import ExtendDb.Theory.Base64

/-!
# Attribute values and items

`AttributeValue` is the ten-variant value of the wire format and of every stored item.  Maps and
sets are `BTreeMap`s and `BTreeSet`s in the source; here they are strictly ascending lists
(`ExtendDb.Theory.OrdMap`).
-/

namespace ExtendDb

/-- A byte string (`Vec<u8>`), ordered lexicographically. -/
abbrev Bytes := List UInt8

inductive AttributeValue where
  | s (v : String)
  | n (v : String)
  | b (v : Bytes)
  | ss (v : List String)
  | ns (v : List String)
  | bs (v : List Bytes)
  | bool (v : Bool)
  | null
  | l (v : List AttributeValue)
  | m (v : List (String × AttributeValue))
deriving Inhabited

abbrev Item := List (String × AttributeValue)

namespace AttributeValue

@[elab_as_elim]
theorem nested_induction {motive : AttributeValue → Prop}
    (leaf : ∀ v, (∀ vs, v ≠ .l vs) → (∀ es, v ≠ .m es) → motive v)
    (list : ∀ vs, (∀ v ∈ vs, motive v) → motive (.l vs))
    (map : ∀ es, (∀ e ∈ es, motive e.2) → motive (.m es)) : ∀ v, motive v
  | .s _ | .n _ | .b _ | .ss _ | .ns _ | .bs _ | .bool _ | .null =>
    leaf _ (by simp) (by simp)
  | .l vs => list vs fun v _ => nested_induction leaf list map v
  | .m es => map es fun e _ => nested_induction leaf list map e.2
termination_by v => sizeOf v
decreasing_by
  · rename_i hmem
    have := List.sizeOf_lt_of_mem hmem
    simp only [l.sizeOf_spec]
    omega
  · rename_i hmem
    have := List.sizeOf_lt_of_mem hmem
    have : sizeOf e.2 < sizeOf e := by cases e; simp
    simp only [m.sizeOf_spec]
    omega

/-! ## Equality -/

mutual

/-- Structural equality of two values (the derived `PartialEq`). -/
def beq : AttributeValue → AttributeValue → Bool
  | .s x, .s y => x == y
  | .n x, .n y => x == y
  | .b x, .b y => x == y
  | .ss x, .ss y => x == y
  | .ns x, .ns y => x == y
  | .bs x, .bs y => x == y
  | .bool x, .bool y => x == y
  | .null, .null => true
  | .l xs, .l ys => beqList xs ys
  | .m xs, .m ys => beqEntries xs ys
  | _, _ => false

def beqList : List AttributeValue → List AttributeValue → Bool
  | [], [] => true
  | x :: xs, y :: ys => beq x y && beqList xs ys
  | _, _ => false

def beqEntries : List (String × AttributeValue) → List (String × AttributeValue) → Bool
  | [], [] => true
  | (k, x) :: xs, (k', y) :: ys => k == k' && beq x y && beqEntries xs ys
  | _, _ => false

end

private theorem beqList_iff (xs) (ih : ∀ x ∈ xs, ∀ y, beq x y = true ↔ x = y) (ys) :
    beqList xs ys = true ↔ xs = ys := by
  induction xs generalizing ys with
  | nil => cases ys <;> simp [beqList]
  | cons x xs ihxs =>
    cases ys with
    | nil => simp [beqList]
    | cons y ys =>
      rw [beqList, Bool.and_eq_true, ih x (by simp),
        ihxs fun z hz => ih z (.tail _ hz), List.cons.injEq]

private theorem beqEntries_iff (xs) (ih : ∀ x ∈ xs, ∀ y, beq x.2 y = true ↔ x.2 = y) (ys) :
    beqEntries xs ys = true ↔ xs = ys := by
  induction xs generalizing ys with
  | nil => cases ys <;> simp [beqEntries]
  | cons x xs ihxs =>
    obtain ⟨k, x⟩ := x
    cases ys with
    | nil => simp [beqEntries]
    | cons y ys =>
      obtain ⟨k', y⟩ := y
      rw [beqEntries, Bool.and_eq_true, Bool.and_eq_true, ih (k, x) (by simp),
        ihxs fun z hz => ih z (.tail _ hz)]
      simp

theorem beq_iff_eq (x y) : beq x y = true ↔ x = y := by
  induction x using nested_induction generalizing y with
  | leaf x hl hm => cases x <;> cases y <;> simp_all [beq]
  | list vs ih => cases y <;> simp [beq, beqList_iff vs ih]
  | map es ih => cases y <;> simp [beq, beqEntries_iff es ih]

instance : DecidableEq AttributeValue :=
  fun x y => decidable_of_iff (beq x y = true) (beq_iff_eq x y)

/-! ## Numbers inside a value -/

mutual

/-- The text of every `N` and of every `NS` member at any depth. -/
def numbers : AttributeValue → List String
  | .n v => [v]
  | .ns vs => vs
  | .l vs => numbersOfList vs
  | .m es => numbersOfEntries es
  | _ => []

def numbersOfList : List AttributeValue → List String
  | [] => []
  | v :: vs => numbers v ++ numbersOfList vs

def numbersOfEntries : List (String × AttributeValue) → List String
  | [] => []
  | (_, v) :: es => numbers v ++ numbersOfEntries es

end

variable {t : String} {vs : List AttributeValue}

@[simp]
theorem mem_numbersOfList : t ∈ numbersOfList vs ↔ ∃ v ∈ vs, t ∈ numbers v := by
  induction vs with
  | nil => simp [numbersOfList]
  | cons v vs ih => simp [numbersOfList, ih]

variable {es : List (String × AttributeValue)}

@[simp]
theorem mem_numbersOfEntries : t ∈ numbersOfEntries es ↔ ∃ e ∈ es, t ∈ numbers e.2 := by
  induction es with
  | nil => simp [numbersOfEntries]
  | cons e es ih => simp [numbersOfEntries, ih]

def AllNumbers (P : String → Prop) (v : AttributeValue) : Prop := ∀ t ∈ v.numbers, P t

instance (P : String → Prop) [DecidablePred P] (v : AttributeValue) : Decidable (v.AllNumbers P) :=
  inferInstanceAs (Decidable (∀ t ∈ v.numbers, P t))

variable {P : String → Prop}

@[simp]
theorem allNumbers_n : (n t).AllNumbers P ↔ P t := by
  simp [AllNumbers, numbers]

@[simp]
theorem allNumbers_ns {ts} : (ns ts).AllNumbers P ↔ ∀ t ∈ ts, P t := by
  simp [AllNumbers, numbers]

@[simp]
theorem allNumbers_l : (l vs).AllNumbers P ↔ ∀ v ∈ vs, v.AllNumbers P := by
  simp only [AllNumbers, numbers, mem_numbersOfList]
  exact ⟨fun h v hv t ht => h t ⟨v, hv, ht⟩, fun h t ⟨v, hv, ht⟩ => h v hv t ht⟩

@[simp]
theorem allNumbers_m : (m es).AllNumbers P ↔ ∀ e ∈ es, e.2.AllNumbers P := by
  simp only [AllNumbers, numbers, mem_numbersOfEntries]
  exact ⟨fun h e he t ht => h t ⟨e, he, ht⟩, fun h t ⟨e, he, ht⟩ => h e he t ht⟩

end AttributeValue

def Item.AllNumbers (P : String → Prop) (item : Item) : Prop := ∀ e ∈ item, e.2.AllNumbers P

instance (P : String → Prop) [DecidablePred P] (item : Item) : Decidable (Item.AllNumbers P item) :=
  inferInstanceAs (Decidable (∀ e ∈ item, e.2.AllNumbers P))

/-! ## The `base64` crate

Its code is not part of the repository. -/

structure Base64Engine where
  encode : Bytes → String
  decode : String → Option Bytes

/-- What results may assume of the engine. -/
structure Base64Engine.Documented (base64 : Base64Engine) : Prop where
  decode_encode : ∀ b, base64.decode (base64.encode b) = some b

theorem Base64Engine.Documented.encode_injective {base64 : Base64Engine}
    (h : base64.Documented) : Function.Injective base64.encode := by
  intro b c hbc
  have hdecode := h.decode_encode b
  rw [hbc, h.decode_encode c] at hdecode
  exact (Option.some.inj hdecode).symm

def Base64Engine.standard : Base64Engine where
  encode := Base64.encode
  decode := Base64.decode

theorem Base64Engine.standard_documented : Base64Engine.standard.Documented where
  decode_encode := Base64.decode_encode

end ExtendDb
