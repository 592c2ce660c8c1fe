import Mathlib.Tactic.Cases

/-!
# Programs that check and write

A program runs over the state `σ` of a store.  It checks its input, fetches from the store and
issues writes of type `ω`; every write it issues is recorded in a journal.
-/

namespace Journal

open List

variable {σ ω ε δ α β : Type}

/-- Why a program failed. -/
inductive Failure (ε δ : Type) where
  | rejected (e : ε)
  | store (d : δ)
deriving DecidableEq

/-- The store and the writes issued to it, in order. -/
structure World (σ ω : Type) where
  state : σ
  journal : List ω
deriving DecidableEq

abbrev Program (σ ω ε δ : Type) := ExceptT (Failure ε δ) (StateM (World σ ω))

def exec (p : Program σ ω ε δ α) (w : World σ ω) : Except (Failure ε δ) α × World σ ω :=
  p.run.run w

def check (r : Except ε α) : Program σ ω ε δ α :=
  match r with
  | .ok a => pure a
  | .error e => throw (.rejected e)

def fetch (r : Except δ α) : Program σ ω ε δ α :=
  match r with
  | .ok a => pure a
  | .error d => throw (.store d)

def write (apply : ω → σ → Except δ Unit × σ) (x : ω) : Program σ ω ε δ Unit := do
  let w ← get
  set ({ state := (apply x w.state).2, journal := w.journal ++ [x] } : World σ ω)
  fetch (apply x w.state).1

theorem exec_bind (p) (f : α → Program σ ω ε δ β) (w) : exec (p >>= f) w = match exec p w with
      | (.ok a, w') => exec (f a) w'
      | (.error e, w') => (.error e, w') := by
  rw [exec, exec, ExceptT.run_bind, StateT.run_bind]
  rcases p.run.run w with ⟨r, w'⟩
  cases r <;> rfl

@[simp]
theorem exec_write (apply : ω → σ → Except δ Unit × σ) (x) (w) :
    exec (write apply x : Program σ ω ε δ Unit) w =
      exec (fetch (apply x w.state).1) ⟨(apply x w.state).2, w.journal ++ [x]⟩ := rfl

/-! ## Straight-line programs -/

/-- One step of a straight-line program. -/
inductive Step (ε δ ω : Type) where
  | check (r : Except ε Unit)
  | fetch (r : Except δ Unit)
  | write (x : ω)

section

variable (apply : ω → σ → Except δ Unit × σ)

def perform : Step ε δ ω → Program σ ω ε δ Unit
  | .check r => check r
  | .fetch r => fetch r
  | .write x => write apply x

def performAll (steps : List (Step ε δ ω)) : Program σ ω ε δ Unit := steps.forM (perform apply)

/-- From the given state every check passes and the store does not fail. -/
def Accepted : List (Step ε δ ω) → σ → Prop
  | [], _ => True
  | .check r :: rest, s => r = .ok () ∧ Accepted rest s
  | .fetch r :: rest, s => r = .ok () ∧ Accepted rest s
  | .write x :: rest, s => (apply x s).1 = .ok () ∧ Accepted rest (apply x s).2

def writes : List (Step ε δ ω) → List ω
  | [] => []
  | .write x :: rest => x :: writes rest
  | _ :: rest => writes rest

variable {apply}

theorem performAll_append (xs ys : List (Step ε δ ω)) :
    performAll (σ := σ) apply (xs ++ ys) = (do performAll apply xs; performAll apply ys) := by
  simp [performAll]

theorem performAll_flatMap (f : α → List (Step ε δ ω)) (xs : List α) :
    performAll (σ := σ) apply (xs.flatMap f) = xs.forM (fun x => performAll apply (f x)) := by
  induction xs with
  | nil => rfl
  | cons x xs ih => rw [flatMap_cons, performAll_append, ih, List.forM]

theorem performAll_cons (step) (steps : List (Step ε δ ω)) (w) :
    exec (performAll apply (step :: steps)) w = match exec (perform apply step) w with
      | (.ok _, w') => exec (performAll apply steps) w'
      | (.error e, w') => (.error e, w') := by
  rw [performAll, List.forM, exec_bind]
  rcases exec (perform apply step) w with ⟨r, w'⟩
  cases r <;> rfl

theorem Accepted.exec_append {pre w} (h : Accepted apply pre w.state) (post : List (Step ε δ ω)) :
    ∃ w', w'.journal = w.journal ++ writes pre ∧
      exec (performAll apply (pre ++ post)) w = exec (performAll apply post) w' := by
  induction pre generalizing w with
  | nil => exact ⟨w, (append_nil _).symm, rfl⟩
  | cons step pre ih =>
    rw [cons_append, performAll_cons]
    cases step with
    | check r | fetch r =>
      rw [h.1]
      exact ih h.2
    | write x =>
      rw [perform, exec_write, h.1]
      obtain ⟨w', hj, hexec⟩ := ih (w := ⟨(apply x w.state).2, w.journal ++ [x]⟩) h.2
      exact ⟨w', by rw [hj, writes, append_assoc, singleton_append], hexec⟩

variable {steps : List (Step ε δ ω)}

theorem rejected_split {w w' e} (h : exec (performAll apply steps) w = (.error (.rejected e), w')) :
    ∃ pre post, steps = pre ++ .check (.error e) :: post ∧ Accepted apply pre w.state ∧
      (writes pre = [] → w' = w) := by
  induction steps generalizing w with
  | nil => cases h
  | cons step steps ih =>
    rw [performAll_cons] at h
    cases step with
    | check r =>
      cases r with
      | error e' =>
        cases h
        exact ⟨[], steps, rfl, trivial, fun _ => rfl⟩
      | ok u =>
        obtain ⟨pre, post, rfl, hpre, hw⟩ := ih h
        exact ⟨.check (.ok u) :: pre, post, rfl, ⟨rfl, hpre⟩, hw⟩
    | fetch r =>
      cases r with
      | error d => cases h
      | ok u =>
        obtain ⟨pre, post, rfl, hpre, hw⟩ := ih h
        exact ⟨.fetch (.ok u) :: pre, post, rfl, ⟨rfl, hpre⟩, hw⟩
    | write x =>
      rw [perform, exec_write] at h
      cases hr : (apply x w.state).1 with
      | error d =>
        rw [hr] at h
        cases h
      | ok u =>
        rw [hr] at h
        obtain ⟨pre, post, rfl, hpre, -⟩ := ih h
        exact ⟨.write x :: pre, post, rfl, ⟨hr, hpre⟩, fun hnil => by cases hnil⟩

theorem accepted_of_exec {w w'} (h : exec (performAll apply steps) w = (.ok (), w')) :
    Accepted apply steps w.state ∧
      w'.state = (writes steps).foldl (fun s x => (apply x s).2) w.state := by
  induction steps generalizing w with
  | nil =>
    cases h
    exact ⟨trivial, rfl⟩
  | cons step steps ih =>
    rw [performAll_cons] at h
    cases step with
    | check r =>
      cases r with
      | error e => cases h
      | ok u => exact ⟨⟨rfl, (ih h).1⟩, (ih h).2⟩
    | fetch r =>
      cases r with
      | error d => cases h
      | ok u => exact ⟨⟨rfl, (ih h).1⟩, (ih h).2⟩
    | write x =>
      rw [perform, exec_write] at h
      cases hr : (apply x w.state).1 with
      | error d =>
        rw [hr] at h
        cases h
      | ok u =>
        rw [hr] at h
        exact ⟨⟨hr, (ih h).1⟩, (ih h).2⟩

theorem Accepted.fetch_ok {s} (h : Accepted apply steps s) {r} (hr : .fetch r ∈ steps) :
    r = .ok () := by
  induction steps generalizing s with
  | nil => cases hr
  | cons step steps ih =>
    rcases mem_cons.mp hr with rfl | hmem
    · exact h.1
    · cases step <;> exact ih h.2 hmem

theorem mem_writes {x} : x ∈ writes steps ↔ .write x ∈ steps := by
  induction steps with
  | nil => simp [writes]
  | cons step steps ih => cases step <;> simp [writes, ih]

variable (apply)

/-- A rejection by a check leaves no write in the journal and the store as it was. -/
def RejectsBeforeWriting (p : Program σ ω ε δ Unit) (s : σ) : Prop :=
  ∀ e w', exec p ⟨s, []⟩ = (.error (.rejected e), w') → w' = ⟨s, []⟩

/-- Some check fails behind a write, and everything before it is accepted. -/
def LateRejection (steps : List (Step ε δ ω)) (s : σ) : Prop :=
  ∃ pre e post, steps = pre ++ .check (.error e) :: post ∧ Accepted apply pre s ∧ writes pre ≠ []

theorem rejectsBeforeWriting_iff (steps : List (Step ε δ ω)) (s) :
    RejectsBeforeWriting (performAll apply steps) s ↔ ¬ LateRejection apply steps s := by
  constructor
  · rintro hclean ⟨pre, e, post, rfl, hpre, hwrites⟩
    obtain ⟨w', hj, hexec⟩ := hpre.exec_append (w := ⟨s, []⟩) (.check (.error e) :: post)
    have hw := hclean e w' (hexec.trans (performAll_cons _ _ _))
    rw [hw] at hj
    exact hwrites hj.symm
  · intro hlate e w' h
    obtain ⟨pre, post, hsteps, hpre, hw⟩ := rejected_split h
    apply hw
    rw [← Classical.not_not (a := writes pre = [])]
    exact fun hwrites => hlate ⟨pre, e, post, hsteps, hpre, hwrites⟩

end

end Journal
