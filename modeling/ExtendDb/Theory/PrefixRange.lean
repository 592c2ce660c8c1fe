import Mathlib.Data.String.Basic

/-!
# Prefixes as ranges

The strings that start with a given one are a range of the lexicographic order.  Where it ends
depends on the alphabet: below the prefix followed by the greatest letter, all but the strings that
go on with that letter.
-/

namespace PrefixRange

open List

variable {α : Type} [LinearOrder α]

/-- Not below a word with its first letter: above at that letter, or equal there and not below
behind it. -/
theorem not_cons_lt_cons_iff {a b : α} {x y} : ¬(a :: x) < (b :: y) ↔ b < a ∨ (a = b ∧ ¬x < y) := by
  rw [cons_lt_cons_iff]
  constructor
  · intro h
    rcases lt_trichotomy a b with hab | rfl | hab
    · exact absurd (.inl hab) h
    · exact .inr ⟨rfl, fun hxy => h (.inr ⟨rfl, hxy⟩)⟩
    · exact .inl hab
  · rintro (hba | ⟨rfl, hxy⟩) (hab | ⟨hab, hlt⟩)
    · exact lt_asymm hab hba
    · exact hba.ne' hab
    · exact lt_irrefl _ hab
    · exact hxy hlt

theorem range_push_iff {m : α} (hm : ∀ c, c ≤ m) (p x) :
    (¬x < p ∧ x < p ++ [m]) ↔ p <+: x ∧ ¬(p ++ [m]) <+: x := by
  induction p generalizing x with
  | nil =>
    cases x with
    | nil => simp
    | cons c x =>
      have hlt : c < m ↔ m ≠ c :=
        ⟨fun h => h.ne', fun h => lt_of_le_of_ne (hm c) h.symm⟩
      simp [cons_lt_cons_iff, hlt]
  | cons a p ih =>
    cases x with
    | nil => simp
    | cons c x =>
      rw [not_cons_lt_cons_iff, cons_append, cons_lt_cons_iff, cons_prefix_cons, cons_prefix_cons]
      constructor
      · rintro ⟨hca | ⟨rfl, hle⟩, hac | ⟨heq, hlt⟩⟩
        · exact absurd hac (lt_asymm hca)
        · exact absurd heq hca.ne'
        · exact absurd hac (lt_irrefl _)
        · obtain ⟨hp, hnot⟩ := (ih x).mp ⟨hle, hlt⟩
          exact ⟨⟨rfl, hp⟩, fun h => hnot h.2⟩
      · rintro ⟨⟨rfl, hp⟩, hnot⟩
        obtain ⟨hle, hlt⟩ := (ih x).mpr ⟨hp, fun h => hnot ⟨rfl, h⟩⟩
        exact ⟨.inr ⟨rfl, hle⟩, .inr ⟨rfl, hlt⟩⟩

def IsUpperBound (p : List α) : Option (List α) → Prop
  | some upper => ∀ x, (¬x < p ∧ x < upper) ↔ p <+: x
  | none => ∀ x, ¬x < p ↔ p <+: x

theorem isUpperBound_nil : IsUpperBound ([] : List α) none := by
  intro x
  simp

theorem IsUpperBound.cons (a : α) {p upper} (h : IsUpperBound p (some upper)) :
    IsUpperBound (a :: p) (some (a :: upper)) := by
  intro x
  cases x with
  | nil => simp
  | cons c x =>
    rw [not_cons_lt_cons_iff, cons_lt_cons_iff, cons_prefix_cons, ← h x]
    constructor
    · rintro ⟨hca | ⟨rfl, hle⟩, hac | ⟨heq, hlt⟩⟩
      · exact absurd hac (lt_asymm hca)
      · exact absurd heq hca.ne'
      · exact absurd hac (lt_irrefl _)
      · exact ⟨rfl, hle, hlt⟩
    · rintro ⟨rfl, hle, hlt⟩
      exact ⟨.inr ⟨rfl, hle⟩, .inr ⟨rfl, hlt⟩⟩

theorem IsUpperBound.next {a b : α} (hab : a < b) (hnext : ∀ c, a < c → b ≤ c) {p}
    (h : IsUpperBound p none) : IsUpperBound (a :: p) (some [b]) := by
  intro x
  cases x with
  | nil => simp
  | cons c x =>
    rw [not_cons_lt_cons_iff, cons_lt_cons_iff, cons_prefix_cons, ← h x]
    constructor
    · rintro ⟨hca | ⟨rfl, hle⟩, hcb | ⟨-, hlt⟩⟩
      · exact absurd hcb (not_lt.mpr (hnext c hca))
      · exact absurd hlt (by simp)
      · exact ⟨rfl, hle⟩
      · exact absurd hlt (by simp)
    · rintro ⟨rfl, hle⟩
      exact ⟨.inr ⟨rfl, hle⟩, .inl hab⟩

theorem IsUpperBound.greatest {a : α} (ha : ∀ c, c ≤ a) {p} (h : IsUpperBound p none) :
    IsUpperBound (a :: p) none := by
  intro x
  cases x with
  | nil => simp
  | cons c x =>
    rw [not_cons_lt_cons_iff, cons_prefix_cons, ← h x]
    constructor
    · rintro (hca | ⟨rfl, hle⟩)
      · exact absurd hca (not_lt.mpr (ha c))
      · exact ⟨rfl, hle⟩
    · rintro ⟨rfl, hle⟩
      exact .inr ⟨rfl, hle⟩

/-- The last letter with a next one raised to it, and what stands behind dropped. -/
def raise (next : α → Option α) : List α → Option (List α)
  | [] => none
  | a :: p =>
    match raise next p with
    | some upper => some (a :: upper)
    | none => (next a).map ([·])

theorem raise_isUpperBound {next} (hsome : ∀ a b, next a = some b → a < b ∧ ∀ c, a < c → b ≤ c)
    (hnone : ∀ a, next a = none → ∀ c, c ≤ a) (p : List α) : IsUpperBound p (raise next p) := by
  induction p with
  | nil => exact isUpperBound_nil
  | cons a p ih =>
    rw [raise]
    cases hrest : raise next p with
    | some upper => exact (hrest ▸ ih).cons a
    | none =>
      rw [hrest] at ih
      cases hnext : next a with
      | some b => exact ih.next (hsome a b hnext).1 (hsome a b hnext).2
      | none => exact ih.greatest (hnone a hnext)

omit [LinearOrder α] in
theorem raise_eq_none {next} {p : List α} : raise next p = none ↔ ∀ a ∈ p, next a = none := by
  induction p with
  | nil => simp [raise]
  | cons a p ih =>
    rw [forall_mem_cons, ← ih, raise]
    cases raise next p <;> simp

theorem IsUpperBound.iff {p upper} (h : IsUpperBound p upper) (x : List α) :
    (¬x < p ∧ ∀ u ∈ upper, x < u) ↔ p <+: x := by
  cases upper with
  | some u | none => simpa using h x

end PrefixRange
