import Mathlib.Data.List.Basic

/-!
# Programs over statements

A program issues statements to a resource it shares with others and goes on with the answers.  A
statement is answered with a result of its own type or with the text of a failure.  Processes run
programs a statement at a time, in the order of a schedule; the resource may take note of who issues
a statement.  A process that is never scheduled again has crashed.
-/

namespace Interaction

/-- A program whose statements `s : σ` are answered in `ρ s`, and which ends with an `α` or an error
in `ε`. -/
inductive Program {σ : Type} (ρ : σ → Type) (ε α : Type) : Type where
  | done (result : Except ε α)
  | call (s : σ) (next : Except String (ρ s) → Program ρ ε α)

variable {σ : Type} {ρ : σ → Type} {ε ε' δ α β γ : Type}

namespace Program

def bind (p : Program ρ ε α) (f : α → Program ρ ε β) : Program ρ ε β :=
  match p with
  | done (.ok a) => f a
  | done (.error e) => done (.error e)
  | call s next => call s fun answer => (next answer).bind f

instance : Monad (Program ρ ε) where
  pure a := done (.ok a)
  bind := bind

def fail (e : ε) : Program ρ ε α := done (.error e)

def query (s : σ) (failed : String → ε) : Program ρ ε (ρ s) :=
  call s fun answer => done (answer.mapError failed)

/-- The error as a value. -/
def attempt : Program ρ ε α → Program ρ ε' (Except ε α)
  | done result => done (.ok result)
  | call s next => call s fun answer => attempt (next answer)

def mapError (f : ε → ε') : Program ρ ε α → Program ρ ε' α
  | done result => done (result.mapError f)
  | call s next => call s fun answer => mapError f (next answer)

@[simp] theorem pure_eq (a : α) : (pure a : Program ρ ε α) = done (.ok a) := rfl

@[simp] theorem done_ok_bind (a : α) (f : α → Program ρ ε β) : (done (.ok a) >>= f) = f a := rfl

@[simp] theorem done_error_bind (e : ε) (f : α → Program ρ ε β) :
    (done (.error e) >>= f) = done (.error e) := rfl

@[simp] theorem fail_bind (e : ε) (f : α → Program ρ ε β) : (fail e >>= f) = done (.error e) := rfl

@[simp] theorem call_bind (s : σ) (next : Except String (ρ s) → Program ρ ε α)
    (f : α → Program ρ ε β) : (call s next >>= f) = call s (fun answer => next answer >>= f) := rfl

/-- The program alone. -/
def run (exec : (s : σ) → δ → Except String (ρ s) × δ) : Program ρ ε α → δ → Except ε α × δ
  | done result, d => (result, d)
  | call s next, d => run exec (next (exec s d).1) (exec s d).2

/-! ## Outlines -/

def Outline (P : σ → Prop) (Q : Except ε α → Prop) : Program ρ ε α → Prop
  | done result => Q result
  | call s next => P s ∧ ∀ answer, Outline P Q (next answer)

namespace Outline

variable {P P' : σ → Prop} {Q Q' : Except ε α → Prop} {p : Program ρ ε α}

theorem mono (h : p.Outline P Q) (hP : ∀ s, P s → P' s)
    (hQ : ∀ result, Q result → Q' result) : p.Outline P' Q' := by
  induction p with
  | done result => exact hQ _ h
  | call s next ih => exact ⟨hP _ h.1, fun answer => ih _ (h.2 answer)⟩

theorem forget (h : p.Outline P Q) : p.Outline P (fun _ => True) :=
  h.mono (fun _ => id) fun _ _ => trivial

theorem bind {f} {Q' : Except ε β → Prop} (h : p.Outline P Q)
    (hok : ∀ a, Q (.ok a) → (f a).Outline P Q') (herror : ∀ e, Q (.error e) → Q' (.error e)) :
    (p >>= f).Outline P Q' := by
  induction p with
  | done result =>
    cases result with
    | ok a => exact hok _ h
    | error e => exact herror _ h
  | call s next ih => exact ⟨h.1, fun answer => ih _ (h.2 answer)⟩

/-- An error meets a postcondition that is about results. -/
theorem bind_ok {f} {S : β → Prop} (h : p.Outline P Q)
    (hok : ∀ a, Q (.ok a) → (f a).Outline P fun result => ∀ b, result = .ok b → S b) :
    (p >>= f).Outline P fun result => ∀ b, result = .ok b → S b :=
  bind h hok fun _ _ _ h => nomatch h

theorem query {s failed} {Q : Except ε (ρ s) → Prop} (hs : P s)
    (hQ : ∀ answer : Except String (ρ s), Q (answer.mapError failed)) :
    (query s failed).Outline P Q :=
  ⟨hs, hQ⟩

theorem attempt (h : p.Outline P Q) : (p.attempt : Program ρ ε' (Except ε α)).Outline P
      (fun result => ∃ inner, result = .ok inner ∧ Q inner) := by
  induction p with
  | done result => exact ⟨_, rfl, h⟩
  | call s next ih => exact ⟨h.1, fun answer => ih _ (h.2 answer)⟩

theorem mapError {f} {Q' : Except ε' α → Prop} (h : p.Outline P Q)
    (hQ : ∀ result, Q result → Q' (result.mapError f)) : (p.mapError f).Outline P Q' := by
  induction p with
  | done result => exact hQ _ h
  | call s next ih => exact ⟨h.1, fun answer => ih _ (h.2 answer)⟩

end Outline

end Program

/-! ## Interleaved programs -/

variable {σ : Type} {ρ : σ → Type} {ε α β δ ι : Type}

inductive Process (ρ : σ → Type) (ε α : Type) where
  | waiting (program : Program ρ ε α)
  | running (program : Program ρ ε α)

namespace Process

def program : Process ρ ε α → Program ρ ε α
  | waiting p | running p => p

def result? (process : Process ρ ε α) : Option (Except ε α) :=
  match process.program with
  | .done result => some result
  | .call _ _ => none

/-- The process has issued a statement and has more to issue. -/
def InProgress (process : Process ρ ε α) : Prop :=
  ∃ s next, process = running (.call s next)

end Process

structure Config (ι : Type) (ρ : σ → Type) (ε α δ : Type) where
  procs : ι → Process ρ ε α
  data : δ

namespace Config

section

variable [DecidableEq ι] (exec : ι → (s : σ) → δ → Except String (ρ s) × δ)

/-- Process `i` issues its next statement, if it has one. -/
def step (c : Config ι ρ ε α δ) (i : ι) : Config ι ρ ε α δ :=
  match (c.procs i).program with
  | .done _ => c
  | .call s next =>
    ⟨Function.update c.procs i (.running (next (exec i s c.data).1)), (exec i s c.data).2⟩

def steps (c : Config ι ρ ε α δ) (schedule : List ι) : Config ι ρ ε α δ :=
  schedule.foldl (step exec) c

def Meets (C : Config ι ρ ε α δ → ι → Prop) : Config ι ρ ε α δ → List ι → Prop
  | _, [] => True
  | c, i :: schedule => C c i ∧ Meets C (c.step exec i) schedule

end

end Config

/-! ## Rely and guarantee -/

/-- What a process assumes of the steps of others, what it promises of its own, and the states in
which it is trusted to issue a statement. -/
structure Discipline (σ δ : Type) where
  rely : δ → δ → Prop
  guarantee : δ → δ → Prop
  admits : σ → δ → Prop
  rely_refl : ∀ d, rely d d
  rely_trans : ∀ {d d' d''}, rely d d' → rely d' d'' → rely d d''

namespace Program

section

variable (exec : (s : σ) → δ → Except String (ρ s) × δ) (inv : δ → Prop) (D : Discipline σ δ)

def Upholds (Q : Except ε α → δ → Prop) : Program ρ ε α → δ → Prop
  | done result, d => ∀ d', D.rely d d' → inv d' → Q result d'
  | call s next, d => ∀ d', D.rely d d' → inv d' → D.admits s d' →
      D.guarantee d' (exec s d').2 ∧ inv (exec s d').2 ∧
        Upholds Q (next (exec s d').1) (exec s d').2

namespace Upholds

variable {exec inv D} {Q Q' : Except ε α → δ → Prop} {d : δ} {p : Program ρ ε α}

theorem of_rely
    (h : ∀ d', D.rely d d' → inv d' → p.Upholds exec inv D Q d') : p.Upholds exec inv D Q d := by
  cases p with
  | done result | call s next => exact fun d' hr hi => h d' hr hi d' (D.rely_refl d') hi

theorem stable {d'} (h : p.Upholds exec inv D Q d) (hr : D.rely d d') :
    p.Upholds exec inv D Q d' := by
  cases p with
  | done result | call s next => exact fun d'' hr' hi => h d'' (D.rely_trans hr hr') hi

theorem mono (h : p.Upholds exec inv D Q d)
    (hQ : ∀ result d', Q result d' → Q' result d') : p.Upholds exec inv D Q' d := by
  induction p generalizing d with
  | done result => exact fun d' hr hi => hQ _ _ (h d' hr hi)
  | call s next ih =>
    intro d' hr hi ha
    obtain ⟨hg, hi', hnext⟩ := h d' hr hi ha
    exact ⟨hg, hi', ih _ hnext⟩

theorem bind {f} {Q' : Except ε β → δ → Prop} (h : p.Upholds exec inv D Q d)
    (hok : ∀ a d', inv d' → Q (.ok a) d' → (f a).Upholds exec inv D Q' d')
    (herror : ∀ e d', inv d' → Q (.error e) d' → Q' (.error e) d') :
    (p >>= f).Upholds exec inv D Q' d := by
  induction p generalizing d with
  | done result =>
    cases result with
    | ok a => exact of_rely fun d' hr hi => hok a d' hi (h d' hr hi)
    | error e => exact fun d' hr hi => herror e d' hi (h d' hr hi)
  | call s next ih =>
    intro d' hr hi ha
    obtain ⟨hg, hi', hnext⟩ := h d' hr hi ha
    exact ⟨hg, hi', ih _ hnext⟩

theorem attempt {ε' : Type} (h : p.Upholds exec inv D Q d) :
    (p.attempt : Program ρ ε' (Except ε α)).Upholds exec inv D
      (fun result d' => ∃ inner, result = .ok inner ∧ Q inner d') d := by
  induction p generalizing d with
  | done result => exact fun d' hr hi => ⟨_, rfl, h d' hr hi⟩
  | call s next ih =>
    intro d' hr hi ha
    obtain ⟨hg, hi', hnext⟩ := h d' hr hi ha
    exact ⟨hg, hi', ih _ hnext⟩

theorem mapError {ε' : Type} {f} {Q' : Except ε' α → δ → Prop} (h : p.Upholds exec inv D Q d)
    (hQ : ∀ result d', Q result d' → Q' (result.mapError f) d') :
    (p.mapError f).Upholds exec inv D Q' d := by
  induction p generalizing d with
  | done result => exact fun d' hr hi => hQ _ _ (h d' hr hi)
  | call s next ih =>
    intro d' hr hi ha
    obtain ⟨hg, hi', hnext⟩ := h d' hr hi ha
    exact ⟨hg, hi', ih _ hnext⟩

/-- A program that only issues statements under which `J` persists ends in `J`, with a result its
outline allows. -/
theorem of_outline {P Q} {J : δ → Prop} (h : p.Outline P Q)
    (hstep : ∀ s d, P s → J d → inv d → D.admits s d →
      D.guarantee d (exec s d).2 ∧ inv (exec s d).2 ∧ J (exec s d).2)
    (hrely : ∀ d d', D.rely d d' → inv d' → J d → J d') (hJ : J d) :
    p.Upholds exec inv D (fun result d' => Q result ∧ J d') d := by
  induction p generalizing d with
  | done result => exact fun d' hr hi => ⟨h, hrely _ _ hr hi hJ⟩
  | call s next ih =>
    intro d' hr hi ha
    obtain ⟨hg, hi', hJ'⟩ := hstep s d' h.1 (hrely _ _ hr hi hJ) hi ha
    exact ⟨hg, hi', ih _ (h.2 _) hJ'⟩

end Upholds

end

end Program

/-- What the processes of a system have agreed on: an invariant, a discipline each, and what holds
of the resource before a process starts and after it ends. -/
structure Contracts (ι σ δ ε α : Type) where
  inv : δ → Prop
  discipline : ι → Discipline σ δ
  before : ι → δ → Prop
  after : ι → Except ε α → δ → Prop

namespace Config

section

variable (exec : ι → (s : σ) → δ → Except String (ρ s) × δ) (K : Contracts ι σ δ ε α)

/-- What is known of a process in a state of the resource. -/
def ProcessSound (i : ι) (d : δ) : Process ρ ε α → Prop
  | .waiting p => K.before i d ∧
      ∀ d', K.before i d' → K.inv d' → p.Upholds (exec i) K.inv (K.discipline i) (K.after i) d'
  | .running (.done result) => K.after i result d
  | .running (.call s next) =>
    (Program.call s next).Upholds (exec i) K.inv (K.discipline i) (K.after i) d

structure Sound (c : Config ι ρ ε α δ) : Prop where
  keeps : K.inv c.data
  procs : ∀ i, ProcessSound exec K i c.data (c.procs i)

/-- The obligations between processes: a step that `C` accepts is one its process is trusted with,
and the others can live with it. -/
structure Compatible (C : Config ι ρ ε α δ → ι → Prop) : Prop where
  admits : ∀ {c j s next}, K.inv c.data → C c j → (c.procs j).program = .call s next →
    (K.discipline j).admits s c.data
  before : ∀ {i j d d'}, i ≠ j → K.inv d → K.inv d' → (K.discipline j).guarantee d d' →
    K.before i d → K.before i d'
  rely : ∀ {c i j s next}, C c j → i ≠ j → (c.procs i).InProgress →
    (c.procs j).program = .call s next → K.inv c.data → K.inv (exec j s c.data).2 →
    (K.discipline j).guarantee c.data (exec j s c.data).2 →
    (K.discipline i).rely c.data (exec j s c.data).2
  after : ∀ {i j d d' result}, i ≠ j → K.inv d → K.inv d' → (K.discipline j).guarantee d d' →
    K.after i result d → K.after i result d'

variable {exec K} {d : δ} {i : ι}

theorem ProcessSound.running {p} (hi : K.inv d)
    (h : p.Upholds (exec i) K.inv (K.discipline i) (K.after i) d) :
    ProcessSound exec K i d (.running p) := by
  cases p with
  | done result => exact h d ((K.discipline i).rely_refl d) hi
  | call s next => exact h

variable {process : Process ρ ε α}

theorem ProcessSound.upholds {s next} (hi : K.inv d) (h : ProcessSound exec K i d process)
    (hp : process.program = .call s next) :
    (Program.call s next).Upholds (exec i) K.inv (K.discipline i) (K.after i) d := by
  cases process with
  | waiting p =>
    cases (hp : p = .call s next)
    exact h.2 d h.1 hi
  | running p =>
    cases (hp : p = .call s next)
    exact h

theorem ProcessSound.result {result} (hi : K.inv d) (h : ProcessSound exec K i d process)
    (hresult : process.result? = some result) :
    K.after i result d := by
  cases process with
  | waiting p =>
    cases p with
    | done r =>
      cases hresult
      exact h.2 d h.1 hi d ((K.discipline i).rely_refl d) hi
    | call s next => cases hresult
  | running p =>
    cases p with
    | done r =>
      cases hresult
      exact h
    | call s next => cases hresult

variable [DecidableEq ι] {C : Config ι ρ ε α δ → ι → Prop} {c : Config ι ρ ε α δ}

theorem Sound.step (hC : Compatible exec K C) {j} (hc : c.Sound exec K) (hj : C c j) :
    (c.step exec j).Sound exec K := by
  unfold Config.step
  cases hp : (c.procs j).program with
  | done result => exact hc
  | call s next =>
    obtain ⟨hg, hi, hnext⟩ := (hc.procs j).upholds hc.keeps hp c.data
      ((K.discipline j).rely_refl _) hc.keeps (hC.admits hc.keeps hj hp)
    refine ⟨hi, fun i => ?_⟩
    by_cases hij : i = j
    · subst hij
      simp only [Function.update_self]
      exact .running hi hnext
    simp only [Function.update_of_ne hij]
    have hsound := hc.procs i
    cases hproc : c.procs i with
    | waiting p =>
      rw [hproc] at hsound
      exact ⟨hC.before hij hc.keeps hi hg hsound.1, hsound.2⟩
    | running p =>
      rw [hproc] at hsound
      cases p with
      | done result => exact hC.after hij hc.keeps hi hg hsound
      | call s' next' =>
        have hprogress : (c.procs i).InProgress := ⟨s', next', hproc⟩
        exact .stable hsound (hC.rely hj hij hprogress hp hc.keeps hi hg)

theorem Sound.steps (hC : Compatible exec K C) {schedule} (hc : c.Sound exec K)
    (hmeets : c.Meets exec C schedule) : (c.steps exec schedule).Sound exec K := by
  induction schedule generalizing c with
  | nil => exact hc
  | cons j schedule ih => exact ih (hc.step hC hmeets.1) hmeets.2

end

end Config

end Interaction
