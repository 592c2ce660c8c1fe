import Mathlib.Data.List.Pairwise

/-!
# Claiming due rows from a queue

Rows wait in the order they were added, each until its own time.  A claim takes the first rows that
are due, at most so many, and leaves the others.  Rows of one owner whose times ascend are claimed
in the order they were added.
-/

namespace DueQueue

open List

variable {α σ : Type}

def claim (due : α → Bool) : List α → ℕ → List α × List α
  | [], _ => ([], [])
  | x :: queue, limit =>
    if due x && limit != 0 then
      (x :: (claim due queue (limit - 1)).1, (claim due queue (limit - 1)).2)
    else ((claim due queue limit).1, x :: (claim due queue limit).2)

variable {due : α → Bool} {queue : List α}

theorem claim_sublist (due : α → Bool) (queue) (limit) :
    List.Sublist (claim due queue limit).1 queue ∧ List.Sublist (claim due queue limit).2 queue := by
  induction queue generalizing limit with
  | nil => exact ⟨.refl _, .refl _⟩
  | cons x queue ih =>
    unfold claim
    split
    · exact ⟨(ih _).1.cons_cons x, (ih _).2.cons x⟩
    · exact ⟨(ih _).1.cons x, (ih _).2.cons_cons x⟩

theorem claim_due (limit) : ∀ x ∈ (claim due queue limit).1, due x = true := by
  induction queue generalizing limit with
  | nil => exact fun _ h => nomatch h
  | cons x queue ih =>
    unfold claim
    split
    · rename_i hx
      intro y hy
      rcases mem_cons.mp hy with rfl | hy
      · exact (Bool.and_eq_true_iff.mp hx).1
      · exact ih _ y hy
    · exact ih limit

theorem claim_zero : (claim due queue 0).1 = [] := by
  induction queue with
  | nil => rfl
  | cons x queue ih => simp [claim, ih]

theorem claim_filter (own : α → Bool)
    (hdue : queue.Pairwise fun x y => own x = true → own y = true → due y = true → due x = true)
    (limit) :
    queue.filter own =
      (claim due queue limit).1.filter own ++ (claim due queue limit).2.filter own := by
  induction queue generalizing limit with
  | nil => rfl
  | cons x queue ih =>
    obtain ⟨hfirst, hrest⟩ := pairwise_cons.mp hdue
    unfold claim
    split
    · rw [filter_cons, filter_cons, ih hrest (limit - 1)]
      split <;> rfl
    rename_i hx
    by_cases hown : own x = true
    · -- nothing of this owner is claimed behind a row that stays
      have hnone : (claim due queue limit).1.filter own = [] := by
        rcases Nat.eq_zero_or_pos limit with rfl | hlimit
        · rw [claim_zero, filter_nil]
        rw [filter_eq_nil_iff]
        intro y hy howny
        have hy' := hfirst y ((claim_sublist due queue limit).1.subset hy) hown howny
          (claim_due limit y hy)
        simp [hy', Nat.ne_of_gt hlimit] at hx
      have htail := ih hrest limit
      rw [hnone, nil_append] at htail
      rw [filter_cons_of_pos hown, filter_cons_of_pos hown, hnone, htail, nil_append]
    · rw [filter_cons_of_neg hown, filter_cons_of_neg hown]
      exact ih hrest limit

/-! ## Chains -/

section

variable (old new : α → σ)

/-- The rows lead from one value to another, each from where the one before it leads to. -/
def Links : σ → List α → σ → Prop
  | a, [], b => a = b
  | a, x :: xs, b => old x = a ∧ Links (new x) xs b

variable {old new}

theorem links_append {a b xs ys} :
    Links old new a (xs ++ ys) b ↔ ∃ c, Links old new a xs c ∧ Links old new c ys b := by
  induction xs generalizing a with
  | nil => exact ⟨fun h => ⟨a, rfl, h⟩, fun ⟨c, hc, h⟩ => by cases hc; exact h⟩
  | cons x xs ih =>
    constructor
    · rintro ⟨hx, h⟩
      obtain ⟨c, hc, hb⟩ := ih.mp h
      exact ⟨c, ⟨hx, hc⟩, hb⟩
    · rintro ⟨c, ⟨hx, hc⟩, hb⟩
      exact ⟨hx, ih.mpr ⟨c, hc, hb⟩⟩

end

end DueQueue
