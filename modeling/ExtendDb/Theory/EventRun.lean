import Mathlib.Logic.Relation

/-!
# Runs of a machine over events

A machine takes an event in a state, or refuses it.  What every admitted event keeps, every run of
admitted events keeps.
-/

namespace EventRun

variable {σ ε : Type} {step : σ → ε → Option σ} {allowed allowed' : σ → ε → Prop} {s s' s'' : σ}

/-- The states that events lead to, each of them admitted where it happens. -/
def Reaches (step : σ → ε → Option σ) (allowed : σ → ε → Prop) : σ → σ → Prop :=
  Relation.ReflTransGen fun s s' => ∃ e, allowed s e ∧ step s e = some s'

/-- Any event may happen. -/
def Anything : σ → ε → Prop := fun _ _ => True

/-- The events one after another. -/
def run (step : σ → ε → Option σ) : σ → List ε → Option σ
  | s, [] => some s
  | s, e :: es => (step s e).bind fun s' => run step s' es

/-- Every event of the list is admitted where it happens. -/
def Admits (step : σ → ε → Option σ) (allowed : σ → ε → Prop) : σ → List ε → Prop
  | _, [] => True
  | s, e :: es => allowed s e ∧ ∀ s', step s e = some s' → Admits step allowed s' es

theorem Admits.cons {e es} (hallowed : allowed s e) (hstep : step s e = some s')
    (h : Admits step allowed s' es) : Admits step allowed s (e :: es) := by
  refine ⟨hallowed, fun t ht => ?_⟩
  rw [hstep] at ht
  cases ht
  exact h

theorem Reaches.of_admits {es} (hadmits : Admits step allowed s es) (h : run step s es = some s') :
    Reaches step allowed s s' := by
  induction es generalizing s with
  | nil =>
    cases h
    exact .refl
  | cons e es ih =>
    obtain ⟨t, ht, hrun⟩ := Option.bind_eq_some_iff.mp h
    exact .head ⟨e, hadmits.1, ht⟩ (ih (hadmits.2 t ht) hrun)

theorem admits_anything (s) (es) : Admits step Anything s es := by
  induction es generalizing s with
  | nil => trivial
  | cons e es ih => exact ⟨trivial, fun s' _ => ih s'⟩

theorem Reaches.of_run (es) (h : run step s es = some s') : Reaches step Anything s s' :=
  Reaches.of_admits (admits_anything s es) h

theorem Reaches.keeps {I : σ → Prop} (h : Reaches step allowed s s')
    (hstep : ∀ s e s', allowed s e → step s e = some s' → I s → I s') (hs : I s) : I s' := by
  induction h with
  | refl => exact hs
  | tail _ hlast ih =>
    obtain ⟨e, hallowed, he⟩ := hlast
    exact hstep _ e _ hallowed he ih

end EventRun
