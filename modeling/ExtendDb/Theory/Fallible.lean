import Mathlib.Data.List.Forall2
import Mathlib.Tactic.Cases

/-!
# Fallible programs

Inversion rules for programs in `Except`: what a successful sequence, loop or traversal says about
its steps.
-/

namespace Fallible

open List

variable {ε α β : Type}

@[simp]
theorem ok_bind (a) (f : α → Except ε β) : (Except.ok a >>= f) = f a := rfl

@[simp]
theorem error_bind (e) (f : α → Except ε β) : (Except.error e >>= f) = .error e := rfl

@[simp]
theorem pure_eq_ok (a) : (pure a : Except ε α) = .ok a := rfl

@[simp]
theorem throw_eq_error (e) : (throw e : Except ε α) = .error e := rfl

variable {b : β} {f : α → Except ε β} {x : Except ε α}

theorem bind_eq_ok : (x >>= f) = .ok b ↔ ∃ a, x = .ok a ∧ f a = .ok b := by
  cases x <;> simp

theorem unbind (h : (x >>= f) = .ok b) : ∃ a, x = .ok a ∧ f a = .ok b := bind_eq_ok.mp h

theorem check_then_eq_ok {x} {y : Except ε β} :
    (x >>= fun _ => y) = .ok b ↔ x = .ok () ∧ y = .ok b := by
  rw [bind_eq_ok]
  exact ⟨fun ⟨_, hx, hy⟩ => ⟨hx, hy⟩, fun ⟨hx, hy⟩ => ⟨(), hx, hy⟩⟩

theorem ok_of_check {x : Except ε Unit} {y} (h : (x >>= fun _ => y) = .ok b) : y = .ok b :=
  (check_then_eq_ok.mp h).2

theorem bind_congr_ok {g} (h : ∀ a, x = .ok a → f a = g a) : (x >>= f) = (x >>= g) := by
  cases x with
  | error e => rfl
  | ok a => exact h a rfl

theorem map_eq_ok {f} : (f <$> x) = .ok b ↔ ∃ a, x = .ok a ∧ f a = b := by
  cases x <;> simp

variable {xs : List α}

theorem forM_eq_ok {f : α → Except ε PUnit} : xs.forM f = .ok () ↔ ∀ x ∈ xs, f x = .ok () := by
  induction xs with
  | nil => simp [List.forM]
  | cons x xs ih =>
    rw [List.forM, check_then_eq_ok, forall_mem_cons, ih]

variable {ys : List β}

theorem mapM_eq_ok : xs.mapM f = .ok ys ↔ List.Forall₂ (fun x y => f x = .ok y) xs ys := by
  induction xs generalizing ys with
  | nil => cases ys <;> simp [pure, Except.pure]
  | cons x xs ih =>
    rw [mapM_cons, bind_eq_ok]
    constructor
    · rintro ⟨y, hy, h⟩
      obtain ⟨rest, hrest, h⟩ := unbind h
      cases h
      exact .cons hy (ih.mp hrest)
    · rintro (_ | ⟨hy, hrest⟩)
      exact ⟨_, hy, bind_eq_ok.mpr ⟨_, ih.mpr hrest, rfl⟩⟩

theorem mapError_eq_ok {ε' : Type} {r : Except ε α} {f : ε → ε'} {a} :
    r.mapError f = .ok a ↔ r = .ok a := by
  cases r with
  | ok b => exact ⟨fun h => congrArg Except.ok (Except.ok.inj h), fun h => by rw [h]; rfl⟩
  | error e => exact ⟨fun h => (by cases h), fun h => (by cases h)⟩

theorem mapM_congr {g} (h : ∀ x ∈ xs, f x = g x) : xs.mapM f = xs.mapM g := by
  induction xs with
  | nil => rfl
  | cons x xs ih =>
    rw [mapM_cons, mapM_cons, h x (.head _), ih (fun y hy => h y (.tail _ hy))]

theorem forall₂_mem_left {R} (h : List.Forall₂ R xs ys) {x} (hx : x ∈ xs) : ∃ y ∈ ys, R x y := by
  induction h with
  | nil => cases hx
  | cons hxy _ ih =>
    rcases mem_cons.mp hx with rfl | hx
    · exact ⟨_, mem_cons_self .., hxy⟩
    · obtain ⟨y, hy, hR⟩ := ih hx
      exact ⟨y, .tail _ hy, hR⟩

/-- Two traversals whose results agree exactly at the elements that satisfy `S`. -/
theorem mapM_agree_iff {γ : Type} {f : α → Except ε γ} {g : β → Except ε γ} {S : α → Prop}
    (h : List.Forall₂ (fun x y => ∃ a b, f x = .ok a ∧ g y = .ok b ∧ (a = b ↔ S x)) xs ys) :
    ∃ as bs, xs.mapM f = .ok as ∧ ys.mapM g = .ok bs ∧ (as = bs ↔ ∀ x ∈ xs, S x) := by
  induction h with
  | nil => exact ⟨[], [], rfl, rfl, by simp⟩
  | cons hxy _ ih =>
    obtain ⟨a, b, hf, hg, hab⟩ := hxy
    obtain ⟨as, bs, hfs, hgs, habs⟩ := ih
    refine ⟨a :: as, b :: bs, ?_, ?_, ?_⟩
    · rw [mapM_cons, hf, hfs]
      rfl
    · rw [mapM_cons, hg, hgs]
      rfl
    · rw [cons.injEq, hab, habs, forall_mem_cons]

variable {step : β → α → Except ε β}

/-- Along the loop over the list, every step taken starts in a state that meets `C`. -/
def RunSatisfies (step : β → α → Except ε β) (C : β → α → Prop) : List α → β → Prop
  | [], _ => True
  | x :: xs, s => C s x ∧ ∀ s', step s x = .ok s' → RunSatisfies step C xs s'

variable {C : β → α → Prop}

theorem RunSatisfies.of_forall (h : ∀ s x, x ∈ xs → C s x) (s) : RunSatisfies step C xs s := by
  induction xs generalizing s with
  | nil => trivial
  | cons x xs ih =>
    exact ⟨h s x (mem_cons_self ..), fun s' _ => ih (fun t y hy => h t y (.tail _ hy)) s'⟩

theorem foldlM_invariant_of_run (inv : β → Prop)
    (hstep : ∀ s x s', inv s → C s x → step s x = .ok s' → inv s') {s s'}
    (hrun : RunSatisfies step C xs s) (hs : inv s) (h : xs.foldlM step s = .ok s') : inv s' := by
  induction xs generalizing s with
  | nil =>
    cases h
    exact hs
  | cons x xs ih =>
    rw [foldlM_cons, bind_eq_ok] at h
    obtain ⟨t, hx, hrest⟩ := h
    exact ih (hrun.2 t hx) (hstep s x t hs hrun.1 hx) hrest

theorem foldlM_invariant (inv : β → Prop)
    (hstep : ∀ s x s', x ∈ xs → inv s → step s x = .ok s' → inv s') {s s'} (hs : inv s)
    (h : xs.foldlM step s = .ok s') : inv s' :=
  foldlM_invariant_of_run (C := fun _ x => x ∈ xs) inv (fun s x s' hs hx => hstep s x s' hx hs)
    (.of_forall (fun _ _ hx => hx) s) hs h

theorem RunSatisfies.imp {C'} (inv : β → Prop)
    (hstep : ∀ s x s', x ∈ xs → inv s → C s x → step s x = .ok s' → inv s')
    (himp : ∀ s x, x ∈ xs → inv s → C s x → C' s x) {s} (hs : inv s)
    (hrun : RunSatisfies step C xs s) : RunSatisfies step C' xs s := by
  induction xs generalizing s with
  | nil => trivial
  | cons x xs ih =>
    have hx := mem_cons_self (a := x) (l := xs)
    refine ⟨himp s x hx hs hrun.1, fun s' hs' => ?_⟩
    exact ih (fun t y t' hy => hstep t y t' (.tail _ hy)) (fun t y hy => himp t y (.tail _ hy))
      (hstep s x s' hx hs hrun.1 hs') (hrun.2 s' hs')

end Fallible
