import ExtendDb.Theory.EventRun
import Mathlib.Data.List.Basic

/-!
# Recovery of index backfills

Recovery passes of any number of servers look for a CREATING index with a stale heartbeat, drop and
recreate its table and start a task that fills it page by page and then makes the index ACTIVE.
-/

namespace ExtendDb.Cassandra

open List Function List.Subset

inductive PassPhase where
  | idle | chosen | dropped | created
deriving DecidableEq

/-- What a backfill task does next. -/
inductive TaskPhase where
  | page (i : ℕ)
  | beat (i : ℕ)
  | ended
deriving DecidableEq

def TaskPhase.running : TaskPhase → Bool
  | .ended => false
  | _ => true

structure IndexBuild (ρ : Type) where
  now : ℕ
  active : Bool
  heartbeat : Option ℕ
  table : Option (List ρ)
  passes : ℕ → PassPhase
  tasks : ℕ → Option TaskPhase

variable {ρ : Type}

namespace IndexBuild

def created : IndexBuild ρ := ⟨0, false, none, some [], fun _ => .idle, fun _ => none⟩

def setPass (s : IndexBuild ρ) (p : ℕ) (phase : PassPhase) : IndexBuild ρ :=
  { s with passes := update s.passes p phase }

def setTask (s : IndexBuild ρ) (k : ℕ) (phase : TaskPhase) : IndexBuild ρ :=
  { s with tasks := update s.tasks k (some phase) }

def isStale (s : IndexBuild ρ) (staleThreshold : ℕ) : Bool :=
  s.heartbeat.all (· + staleThreshold < s.now)

/-- The rows of the index table; a dropped table has none. -/
def held (s : IndexBuild ρ) : List ρ := s.table.getD []

end IndexBuild

inductive BuildEvent where
  | tick
  | scan (p : ℕ)
  | drop (p : ℕ)
  | create (p : ℕ)
  | start (p k : ℕ)
  /-- A statement of the pass failed, or its server stopped. -/
  | giveUp (p : ℕ)
  | writePage (k : ℕ)
  /-- A heartbeat that fails is only logged. -/
  | beat (k : ℕ) (written : Bool)
  | activate (k : ℕ)
  /-- A statement of the task failed, or its server stopped. -/
  | stop (k : ℕ)

section

variable (pages : List (List ρ)) (staleThreshold : ℕ)

def BuildEvent.step (s : IndexBuild ρ) : BuildEvent → Option (IndexBuild ρ)
  | .tick => some { s with now := s.now + 1 }
  | .scan p =>
    if s.passes p = .idle ∧ s.active = false ∧ s.isStale staleThreshold = true then
      some (s.setPass p .chosen)
    else none
  | .drop p =>
    if s.passes p = .chosen then some { s.setPass p .dropped with table := none } else none
  | .create p =>
    if s.passes p = .dropped then
      match s.table with
      | none => some { s.setPass p .created with table := some [] }
      -- without IF NOT EXISTS
      | some _ => some (s.setPass p .idle)
    else none
  | .start p k =>
    if s.passes p = .created ∧ s.tasks k = none then some ((s.setPass p .idle).setTask k (.page 0))
    else none
  | .giveUp p => some (s.setPass p .idle)
  | .writePage k =>
    match s.tasks k with
    | some (.page i) =>
      match pages[i]?, s.table with
      | none, _ => none
      -- a page without a row for the index sends no batch
      | some [], _ => some (s.setTask k (.beat i))
      | some rows, some held => some { s.setTask k (.beat i) with table := some (held ++ rows) }
      | some _, none => some (s.setTask k .ended)
    | _ => none
  | .beat k written =>
    match s.tasks k with
    | some (.beat i) =>
      let s' := s.setTask k (.page (i + 1))
      some (if written then { s' with heartbeat := some s.now } else s')
    | _ => none
  | .activate k =>
    match s.tasks k with
    | some (.page i) =>
      if pages.length ≤ i then some { s.setTask k .ended with active := true } else none
    | _ => none
  | .stop k => if (s.tasks k).isSome then some (s.setTask k .ended) else none

end

section

variable {pages : List (List ρ)} {staleThreshold : ℕ} {s s' : IndexBuild ρ}

/-- A table is dropped only while no task fills it and the index is not ACTIVE. -/
def DropsAlone (s : IndexBuild ρ) : BuildEvent → Prop
  | .drop _ => s.active = false ∧ ∀ k phase, s.tasks k = some phase → phase.running = false
  | _ => True

def TaskPhase.written (pages : List (List ρ)) : TaskPhase → List ρ
  | .page i => (pages.take i).flatten
  | .beat i => (pages.take (i + 1)).flatten
  | .ended => []

structure IndexBuild.Filled (pages : List (List ρ)) (s : IndexBuild ρ) : Prop where
  active : s.active = true → pages.flatten ⊆ s.held
  tasks : ∀ k phase, s.tasks k = some phase → phase.written pages ⊆ s.held

/-- A step that takes no row away, for which the pages of the task it moves are in the table. -/
theorem IndexBuild.Filled.step (h : s.Filled pages) (hheld : s.held ⊆ s'.held)
    (hactive : s'.active = true → s.active = true ∨ pages.flatten ⊆ s'.held)
    (htasks : ∀ k phase, s'.tasks k = some phase →
      s.tasks k = some phase ∨ phase.written pages ⊆ s'.held) : s'.Filled pages where
  active ha := (hactive ha).elim (fun ha => List.Subset.trans (h.active ha) hheld) id
  tasks k phase hk :=
    (htasks k phase hk).elim (fun hk => List.Subset.trans (h.tasks k phase hk) hheld) id

theorem setTask_tasks {s : IndexBuild ρ} {k j new phase}
    (h : (s.setTask k new).tasks j = some phase) : s.tasks j = some phase ∨ phase = new := by
  by_cases hj : j = k
  · subst hj
    change update s.tasks j _ j = _ at h
    rw [update_self] at h
    exact .inr (Option.some.inj h).symm
  · change update s.tasks k _ j = _ at h
    rw [update_of_ne hj] at h
    exact .inl h

/-- A step that only moves a task, by pages that are in the table. -/
theorem IndexBuild.Filled.setTask (h : s.Filled pages) (k) (new)
    (hnew : new.written pages ⊆ s.held) : (s.setTask k new).Filled pages :=
  h.step (refl _) Or.inl fun j phase hj =>
    (setTask_tasks hj).imp_right fun hphase => by rwa [hphase]

theorem written_beat {i rows} (h : pages[i]? = some rows) :
    TaskPhase.written pages (.beat i) = TaskPhase.written pages (.page i) ++ rows := by
  simp [TaskPhase.written, take_add_one, h]

theorem filled_step {e : BuildEvent} (hallowed : DropsAlone s e)
    (hstep : e.step pages staleThreshold s = some s') (h : s.Filled pages) : s'.Filled pages := by
  cases e <;> simp only [BuildEvent.step] at hstep
  case tick | giveUp p =>
    cases hstep
    exact h.step (refl _) .inl fun _ _ => .inl
  case scan p =>
    split at hstep <;> cases hstep
    exact h.step (refl _) .inl fun _ _ => .inl
  case drop p =>
    split at hstep <;> cases hstep
    obtain ⟨hcreating, hidle⟩ := hallowed
    refine ⟨fun hactive => ?_, fun k phase hk => ?_⟩
    · exact absurd (hcreating.symm.trans hactive) Bool.false_ne_true
    · cases phase with
      | ended => exact nil_subset _
      | page i | beat i => cases hidle k _ hk
  case create p =>
    split at hstep
    · split at hstep <;> cases hstep
      · rename_i htable
        refine h.step ?_ .inl fun _ _ => .inl
        rw [IndexBuild.held, htable]
        exact nil_subset _
      · exact h.step (refl _) .inl fun _ _ => .inl
    · cases hstep
  case start p k =>
    split at hstep <;> cases hstep
    have hidle : (s.setPass p .idle).Filled pages :=
      h.step (refl _) .inl fun _ _ => .inl
    exact hidle.setTask k _ (nil_subset _)
  case writePage k =>
    split at hstep
    · rename_i i htask
      have hbefore := h.tasks k _ htask
      split at hstep <;> cases hstep
      · rename_i hpage
        refine h.setTask k _ ?_
        rw [written_beat hpage, append_nil]
        exact hbefore
      · rename_i rows held _ hpage htable
        have hheld : s.held = held := by rw [IndexBuild.held, htable]; rfl
        rw [hheld] at hbefore
        refine h.step (hheld ▸ subset_append_left _ _) .inl fun j phase hj =>
          (setTask_tasks hj).imp_right ?_
        rintro rfl
        rw [written_beat hpage]
        exact append_subset.mpr ⟨List.Subset.trans hbefore (subset_append_left _ _),
          subset_append_right _ _⟩
      · exact h.setTask k _ (nil_subset _)
    · cases hstep
  case beat k written =>
    split at hstep
    · rename_i i htask
      have hbefore := h.tasks k _ htask
      have hmoved := h.setTask k (.page (i + 1)) hbefore
      cases written <;> cases hstep
      · exact hmoved
      · exact hmoved.step (refl _) .inl fun _ _ => .inl
    · cases hstep
  case activate k =>
    split at hstep
    · rename_i i htask
      split at hstep <;> cases hstep
      rename_i hall
      have hbefore := h.tasks k _ htask
      rw [TaskPhase.written, take_of_length_le hall] at hbefore
      exact (h.setTask k .ended (nil_subset _)).step (refl _)
        (fun _ => .inr hbefore) fun _ _ => .inl
    · cases hstep
  case stop k =>
    split at hstep <;> cases hstep
    exact h.setTask k _ (nil_subset _)

end

/-- Whatever passes and tasks do in whatever order, an ACTIVE index has every row, when no pass drops
the table of an ACTIVE index or a table that a task is filling. -/
theorem active_index_complete {ρ : Type} (pages : List (List ρ)) (staleThreshold : ℕ)
    (s : IndexBuild ρ)
    (hreaches : EventRun.Reaches (BuildEvent.step pages staleThreshold) DropsAlone .created s)
    (hactive : s.active = true) : ∀ row ∈ pages.flatten, row ∈ s.held := by
  have hcreated : (.created : IndexBuild ρ).Filled pages :=
    ⟨fun h => (nomatch h), fun _ _ h => (nomatch h)⟩
  have hfilled := hreaches.keeps (fun _ _ _ hallowed hstep h => filled_step hallowed hstep h) hcreated
  exact fun row hrow => hfilled.active hactive hrow

/-- The first task stops after a page.  Two passes then drop and create the table one after the
other, and their tasks fill it side by side. -/
theorem active_index_complete_two_tasks : ∃ s : IndexBuild String,
      EventRun.Reaches (BuildEvent.step [["x"], ["y"]] 60) DropsAlone .created s ∧
      s.active = true ∧ s.tasks 1 = some (.beat 1) ∧ "x" ∈ s.held ∧ "y" ∈ s.held := by
  have hended (k phase) (h : update (update (update (fun _ : ℕ => none) 0 (some (TaskPhase.page 0)))
      0 (some (.beat 0))) 0 (some .ended) k = some phase) : phase.running = false := by
    cases k with
    | zero =>
      cases h
      rfl
    | succ k => cases h
  have hadmits : EventRun.Admits (BuildEvent.step [["x"], ["y"]] 60) DropsAlone .created
      [.scan 0, .drop 0, .create 0, .start 0 0, .writePage 0, .stop 0,
        .scan 0, .scan 1, .drop 0, .create 0, .drop 1, .create 1, .start 0 1, .start 1 2,
        .writePage 1, .writePage 2, .beat 2 true, .writePage 2, .beat 1 true, .writePage 1,
        .beat 2 false, .activate 2] :=
    .cons trivial rfl <| .cons ⟨rfl, fun _ _ h => nomatch h⟩ rfl <| .cons trivial rfl <|
      .cons trivial rfl <| .cons trivial rfl <| .cons trivial rfl <| .cons trivial rfl <|
      .cons trivial rfl <| .cons ⟨rfl, hended⟩ rfl <| .cons trivial rfl <| .cons ⟨rfl, hended⟩ rfl <|
      .cons trivial rfl <| .cons trivial rfl <| .cons trivial rfl <| .cons trivial rfl <|
      .cons trivial rfl <| .cons trivial rfl <| .cons trivial rfl <| .cons trivial rfl <|
      .cons trivial rfl <| .cons trivial rfl <| .cons trivial rfl trivial
  have hreaches := EventRun.Reaches.of_admits hadmits rfl
  have hcomplete := active_index_complete [["x"], ["y"]] 60 _ hreaches rfl
  exact ⟨_, hreaches, rfl, rfl, hcomplete "x" (by decide), hcomplete "y" (by decide)⟩

/-- Two passes read the index before the first page; the second drops the table that the task of the
first has filled. -/
theorem active_index_dropped : ∃ s : IndexBuild String,
      EventRun.run (BuildEvent.step [["row"]] 60) .created [.scan 0, .scan 1, .drop 0, .create 0,
        .start 0 0, .writePage 0, .beat 0 true, .activate 0, .drop 1] = some s ∧
      s.active = true ∧ (∀ k phase, s.tasks k = some phase → phase = .ended) ∧ s.held = [] := by
  refine ⟨_, rfl, rfl, fun k phase hk => ?_, rfl⟩
  cases k with
  | zero => exact (Option.some.inj hk).symm
  | succ k => cases hk

end ExtendDb.Cassandra
