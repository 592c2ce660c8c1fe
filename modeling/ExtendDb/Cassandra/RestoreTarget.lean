import ExtendDb.Restore.Job

/-!
# Removal of Cassandra restore targets

A registration inserts the target's row (CREATING, its record RUNNING under the registration's
generation), creates its indexes and data tables without a heartbeat, and then registers on the
backup.
-/

namespace ExtendDb.Cassandra

open List Function Relation

inductive TargetStatus where
  | creating
  | active
  | deleting
deriving DecidableEq

structure TargetRow where
  name : String
  status : TargetStatus
  record : RestoreStatus
  generation : Nat
  heartbeatAt : Nat
deriving DecidableEq

def TargetRow.isClaimedForRemoval (row : TargetRow) : Bool :=
  row.status = .deleting && row.record = .failed

/-- The `IF` of the ACTIVE flip and of a registration's removal. -/
def TargetRow.isOwnedBy (row : TargetRow) (generation : Nat) : Bool :=
  row.status = .creating && row.record = .running && row.generation = generation

inductive DropFence where
  | own
  | resumed
  | none
deriving DecidableEq

inductive TargetCall where
  | idle
  /-- `create_table_for_restore_manifest`: the insert is sent, the index and data tables follow. -/
  | creating (tableId generation : Nat)
  /-- The target exists, the registration on the backup follows. -/
  | registering (tableId generation : Nat)
  /-- A job with a claim on the record. -/
  | owner (tableId generation : Nat)
  /-- `remove_restore_target` before its read, and before its conditional write. -/
  | removing (tableId : Nat)
  | claiming (tableId : Nat)
  /-- `drop_restore_target` before `delete_table_as` reads the row, before the data table is
  dropped, and before the catalog row is deleted. -/
  | dropping (tableId : Nat) (fence : DropFence)
  | droppable (tableId : Nat) (fence : DropFence)
  | unlisting (tableId : Nat) (fence : DropFence)
  | finished
deriving DecidableEq

structure PendingInsert where
  tableId : Nat
  name : String
  generation : Nat
deriving DecidableEq

structure TargetDrop where
  caller : Nat
  tableId : Nat
  /-- The record had become DONE before. -/
  afterDone : Bool
deriving DecidableEq

structure TargetCatalog where
  now : Nat
  rows : Nat → Option TargetRow
  /-- Inserts that were sent and can still take effect. -/
  inserts : List PendingInsert
  calls : Nat → TargetCall
  /-- The table ids given out, and those whose insert took effect. -/
  issued : List Nat
  inserted : List Nat
  /-- The tables whose record became DONE. -/
  activated : List Nat
  /-- The conditional writes from CREATING to DELETING that took effect: caller and table. -/
  moved : List (Nat × Nat)
  drops : List TargetDrop

def TargetCatalog.initial : TargetCatalog where
  now := 0
  rows _ := none
  inserts := []
  calls _ := .idle
  issued := []
  inserted := []
  activated := []
  moved := []
  drops := []

namespace TargetCatalog

def goOn (s : TargetCatalog) (c : Nat) (call : TargetCall) : TargetCatalog :=
  { s with calls := update s.calls c call }

theorem calls_goOn (s : TargetCatalog) (c) (call) :
    (s.goOn c call).calls = update s.calls c call := rfl

/-- A conditional write on a row took effect. -/
def setRow (s : TargetCatalog) (t : Nat) (row : Option TargetRow) : TargetCatalog :=
  { s with rows := update s.rows t row }

/-- The write from CREATING to DELETING, after which the caller drops the table. -/
def moveToDeleting (s : TargetCatalog) (c t : Nat) (row : TargetRow) : TargetCatalog :=
  { (s.setRow t (some { row with status := .deleting })).goOn c (.dropping t .own) with
    moved := (c, t) :: s.moved }

end TargetCatalog

/-- The steps the later condition is about. -/
inductive TargetEvent where
  /-- `create_table_for_restore_manifest` fails, and its registration goes on to drop the target. -/
  | creationFails (tableId : Nat)
  /-- `remove_restore_target` finds the table in removal. -/
  | resumes
  | other
deriving DecidableEq

open TargetCatalog in
/-- One step.  Any call can end at any step; a write whose answer is lost takes effect and its caller
goes no further. -/
inductive TargetStep (staleAfter : Nat) : TargetEvent → TargetCatalog → TargetCatalog → Prop where
  | tick {s} : TargetStep staleAfter .other s { s with now := s.now + 1 }
  | stop {s c} (hidle : s.calls c ≠ .idle) : TargetStep staleAfter .other s (s.goOn c .finished)
  | register {s c t generation name} (hcall : s.calls c = .idle) (hfresh : t ∉ s.issued) :
      TargetStep staleAfter .other s { s.goOn c (.creating t generation) with
        inserts := ⟨t, name, generation⟩ :: s.inserts
        issued := t :: s.issued }
  -- `INSERT … IF NOT EXISTS`, at any time after it was sent
  | insert {s sooner later insert} (hin : s.inserts = sooner ++ insert :: later)
      (hfree : ∀ t row, s.rows t = some row → row.name ≠ insert.name) :
      TargetStep staleAfter .other s { s.setRow insert.tableId (some ⟨insert.name, .creating,
          .running, insert.generation, s.now⟩) with
        inserts := sooner ++ later
        inserted := insert.tableId :: s.inserted }
  -- the name is taken, or the statement is lost
  | insertRefused {s sooner later insert} (hin : s.inserts = sooner ++ insert :: later) :
      TargetStep staleAfter .other s { s with inserts := sooner ++ later }
  | created {s c t generation} (hcall : s.calls c = .creating t generation)
      (hinserted : t ∈ s.inserted) :
      TargetStep staleAfter .other s (s.goOn c (.registering t generation))
  -- any error of the creation but `TableAlreadyExists`, whether or not its statements took effect
  | creationFailed {s c t generation} (hcall : s.calls c = .creating t generation) :
      TargetStep staleAfter (.creationFails t) s (s.goOn c (.dropping t .none))
  | registered {s c t generation} (hcall : s.calls c = .registering t generation) :
      TargetStep staleAfter .other s (s.goOn c (.owner t generation))
  -- the registration is refused: `claim_registered_target_for_removal`
  | refused {s c t generation row} (hcall : s.calls c = .registering t generation)
      (hrow : s.rows t = some row) (hif : row.isOwnedBy generation = true) :
      TargetStep staleAfter .other s (s.moveToDeleting c t { row with record := .failed })
  | takeOver {s c t generation row} (hcall : s.calls c = .idle) (hrow : s.rows t = some row)
      (hif : row.record = .running) (hstale : row.heartbeatAt + staleAfter < s.now) :
      TargetStep staleAfter .other s ((s.setRow t (some { row with
        generation := generation
        heartbeatAt := s.now })).goOn c (.owner t generation))
  | heartbeat {s c t generation row} (hcall : s.calls c = .owner t generation)
      (hrow : s.rows t = some row) (hif : row.record = .running ∧ row.generation = generation) :
      TargetStep staleAfter .other s (s.setRow t (some { row with heartbeatAt := s.now }))
  -- a job's own FAILED write keeps the generation, the reconciler's writes a fresh one
  | fail {s t generation row} (hrow : s.rows t = some row) (hif : row.record = .running) :
      TargetStep staleAfter .other s (s.setRow t (some { row with
        record := .failed
        generation := generation }))
  | activate {s c t generation row} (hcall : s.calls c = .owner t generation)
      (hrow : s.rows t = some row) (hif : row.isOwnedBy generation = true) :
      TargetStep staleAfter .other s { s.setRow t (some { row with
          status := .active
          record := .done }) with
        activated := t :: s.activated }
  | remove {s c t} (hcall : s.calls c = .idle) :
      TargetStep staleAfter .other s (s.goOn c (.removing t))
  | removeReads {s c t row} (hcall : s.calls c = .removing t) (hrow : s.rows t = some row)
      (hstatus : row.status = .creating) : TargetStep staleAfter .other s (s.goOn c (.claiming t))
  | removeResumes {s c t row} (hcall : s.calls c = .removing t) (hrow : s.rows t = some row)
      (hclaimed : row.isClaimedForRemoval = true) :
      TargetStep staleAfter .resumes s (s.goOn c (.dropping t .resumed))
  | removeClaims {s c t row} (hcall : s.calls c = .claiming t) (hrow : s.rows t = some row)
      (hif : row.status = .creating) : TargetStep staleAfter .other s (s.moveToDeleting c t row)
  | dropRead {s c t fence row} (hcall : s.calls c = .dropping t fence) (hrow : s.rows t = some row) :
      TargetStep staleAfter .other s (s.goOn c (.droppable t fence))
  | dropData {s c t fence} (hcall : s.calls c = .droppable t fence) :
      TargetStep staleAfter .other s { s.goOn c (.unlisting t fence) with
        drops := ⟨c, t, decide (t ∈ s.activated)⟩ :: s.drops }
  | unlist {s c t fence} (hcall : s.calls c = .unlisting t fence) :
      TargetStep staleAfter .other s ((s.setRow t none).goOn c .finished)

/-- The states of all interleavings. -/
def TargetReachable (staleAfter : Nat) (s : TargetCatalog) : Prop :=
  ReflTransGen (fun s s' => ∃ event, TargetStep staleAfter event s s') TargetCatalog.initial s

/-- Every drop was made by a caller whose own write had moved the table from CREATING to DELETING,
and before its record could become DONE. -/
def TargetCatalog.RemovedByOwner (s : TargetCatalog) : Prop :=
  ∀ d ∈ s.drops, (d.caller, d.tableId) ∈ s.moved ∧ d.afterDone = false

/-- Every drop came after some caller's write had moved the table from CREATING to DELETING, and
before its record could become DONE. -/
def TargetCatalog.RemovedAfterMove (s : TargetCatalog) : Prop :=
  ∀ d ∈ s.drops, (∃ c, (c, d.tableId) ∈ s.moved) ∧ d.afterDone = false

/-- When a creation fails, the target's row is not there and its insert can no longer take effect;
removals are resumed only where the flag says so. -/
def TargetEvent.Orderly (resumes : Bool) (s : TargetCatalog) : TargetEvent → Prop
  | .creationFails t => s.rows t = none ∧ t ∉ s.inserts.map PendingInsert.tableId
  | .resumes => resumes = true
  | .other => True

def OrderlyReachable (staleAfter : Nat) (resumes : Bool) (s : TargetCatalog) : Prop :=
  ReflTransGen (fun s s' => ∃ event, TargetStep staleAfter event s s' ∧ event.Orderly resumes s)
    TargetCatalog.initial s

/-! ### What the rows go through -/

/-- A table whose row was moved to DELETING. -/
def TargetCatalog.Moved (s : TargetCatalog) (t : Nat) : Prop := ∃ c, (c, t) ∈ s.moved

/-- What a table's row can be, given what happened to the table: its insert is pending, it was
activated, it was moved to DELETING, its id was given out. -/
structure TableFacts (row : Option TargetRow) (P A M I : Prop) : Prop where
  pending : P → row = none ∧ ¬ A ∧ ¬ M
  unissued : ¬ I → row = none ∧ ¬ P ∧ ¬ A ∧ ¬ M
  active : A → ∀ r, row = some r → r.status = .active
  moved : M → ¬ A ∧ ∀ r, row = some r → r.status = .deleting
  deleting : ∀ r, row = some r → r.status = .deleting → M

variable {row : TargetRow} {row' : TargetRow}

namespace TableFacts

variable {P A M I : Prop}

section

variable (h : TableFacts (some row) P A M I)
include h

theorem present : ¬ P ∧ I := by
  constructor
  · intro hpending
    cases (h.pending hpending).1
  · by_contra hissued
    cases (h.unissued hissued).1

theorem of_status_eq (hstatus : row'.status = row.status) : TableFacts (some row') P A M I where
  pending hpending := absurd hpending h.present.1
  unissued hissued := absurd h.present.2 hissued
  active hactive r hr := by
    cases hr
    rw [hstatus]
    exact h.active hactive row rfl
  moved hmoved := by
    refine ⟨(h.moved hmoved).1, fun r hr => ?_⟩
    cases hr
    rw [hstatus]
    exact (h.moved hmoved).2 row rfl
  deleting r hr hdeleting := by
    cases hr
    exact h.deleting row rfl (hstatus ▸ hdeleting)

section

variable (hcreating : row.status = .creating)
include hcreating

theorem creating : ¬ A ∧ ¬ M := by
  constructor
  · intro hactive
    have := h.active hactive row rfl
    rw [hcreating] at this
    cases this
  · intro hmoved
    have := (h.moved hmoved).2 row rfl
    rw [hcreating] at this
    cases this

theorem to_deleting (hdeleting : row'.status = .deleting) : TableFacts (some row') P A True I where
  pending hpending := absurd hpending h.present.1
  unissued hissued := absurd h.present.2 hissued
  active hactive := absurd hactive (h.creating hcreating).1
  moved _ := by
    refine ⟨(h.creating hcreating).1, fun r hr => ?_⟩
    cases hr
    exact hdeleting
  deleting _ _ _ := trivial

theorem to_active (hactive : row'.status = .active) : TableFacts (some row') P True M I where
  pending hpending := absurd hpending h.present.1
  unissued hissued := absurd h.present.2 hissued
  active _ r hr := by
    cases hr
    exact hactive
  moved hmoved := absurd hmoved (h.creating hcreating).2
  deleting r hr hdeleting := by
    cases hr
    rw [hactive] at hdeleting
    cases hdeleting

end

end

theorem inserted {absent} (h : TableFacts absent P A M I) (hpending : P)
    (hcreating : row.status = .creating) : TableFacts (some row) False A M I where
  pending := False.elim
  unissued hissued := absurd hpending (h.unissued hissued).2.1
  active hactive := absurd hactive (h.pending hpending).2.1
  moved hmoved := absurd hmoved (h.pending hpending).2.2
  deleting r hr hdeleting := by
    cases hr
    rw [hcreating] at hdeleting
    cases hdeleting

theorem removed {row} (h : TableFacts row P A M I) : TableFacts none P A M I where
  pending hpending := ⟨rfl, (h.pending hpending).2⟩
  unissued hissued := ⟨rfl, (h.unissued hissued).2⟩
  active _ r hr := by cases hr
  moved hmoved := ⟨(h.moved hmoved).1, fun r hr => by cases hr⟩
  deleting r hr := by cases hr

theorem not_pending {row} (h : TableFacts row P A M I) : TableFacts row False A M I where
  pending := False.elim
  unissued hissued := ⟨(h.unissued hissued).1, id, (h.unissued hissued).2.2⟩
  active := h.active
  moved := h.moved
  deleting := h.deleting

theorem issue {row} (h : TableFacts row P A M I) (hissued : ¬ I) :
    TableFacts row True A M True where
  pending _ := ⟨(h.unissued hissued).1, (h.unissued hissued).2.2⟩
  unissued hnot := absurd trivial hnot
  active := h.active
  moved := h.moved
  deleting := h.deleting

end TableFacts

structure TableInvariant (s : TargetCatalog) : Prop where
  table : ∀ t, TableFacts (s.rows t) (t ∈ s.inserts.map PendingInsert.tableId) (t ∈ s.activated)
    (s.Moved t) (t ∈ s.issued)
  distinct : (s.inserts.map PendingInsert.tableId).Nodup

open TargetCatalog

theorem tableInvariant_initial : TableInvariant initial := by
  refine ⟨fun t => ?_, nodup_nil⟩
  constructor <;> simp [initial, Moved]

variable {s : TargetCatalog}

theorem TableInvariant.goOn (h : TableInvariant s) (c) (call) : TableInvariant (s.goOn c call) :=
  ⟨h.table, h.distinct⟩

variable {t : Nat}

theorem TableInvariant.setRow (h : TableInvariant s)
    (hrow : s.rows t = some row) (hstatus : row'.status = row.status) :
    TableInvariant (s.setRow t (some row')) := by
  refine ⟨fun u => ?_, h.distinct⟩
  have hfacts := h.table u
  change TableFacts (update s.rows t (some row') u) _ _ (s.Moved u) _
  by_cases heq : u = t
  · subst heq
    rw [hrow] at hfacts
    rw [update_self]
    exact hfacts.of_status_eq hstatus
  · rw [update_of_ne heq]
    exact hfacts

variable {c : Nat}

theorem TargetCatalog.moved_moveToDeleting (u) :
    (s.moveToDeleting c t row).Moved u ↔ u = t ∨ s.Moved u := by
  simp only [Moved, moveToDeleting, mem_cons, Prod.mk.injEq]
  constructor
  · rintro ⟨d, ⟨_, heq⟩ | hd⟩
    · exact .inl heq
    · exact .inr ⟨d, hd⟩
  · rintro (rfl | ⟨d, hd⟩)
    · exact ⟨c, .inl ⟨rfl, rfl⟩⟩
    · exact ⟨d, .inr hd⟩

theorem TableInvariant.moveToDeleting (h : TableInvariant s)
    (hrow : s.rows t = some row) (hcreating : row.status = .creating) :
    TableInvariant (s.moveToDeleting c t row') := by
  refine ⟨fun u => ?_, h.distinct⟩
  have hfacts := h.table u
  rw [propext (moved_moveToDeleting u)]
  change TableFacts (update s.rows t (some { row' with status := .deleting }) u) _ _ _ _
  by_cases heq : u = t
  · subst heq
    rw [hrow] at hfacts
    rw [update_self, eq_true (.inl rfl : u = u ∨ s.Moved u)]
    exact hfacts.to_deleting hcreating rfl
  · rw [update_of_ne heq, or_iff_right heq]
    exact hfacts

theorem TargetRow.isOwnedBy_creating {generation} (h : row.isOwnedBy generation = true) :
    row.status = .creating := by
  simp only [isOwnedBy, Bool.and_eq_true, decide_eq_true_eq] at h
  exact h.1.1

open PendingInsert

theorem mem_without_insert {inserts sooner later insert} (hin : inserts = sooner ++ insert :: later)
    (hdistinct : (inserts.map tableId).Nodup) :
    ((sooner ++ later).map tableId).Nodup ∧ insert.tableId ∈ inserts.map tableId ∧
      ∀ u, u ∈ (sooner ++ later).map tableId ↔ u ≠ insert.tableId ∧ u ∈ inserts.map tableId := by
  subst hin
  rw [map_append, map_cons, nodup_middle, ← map_append, nodup_cons] at hdistinct
  refine ⟨hdistinct.2, by simp, fun u => ?_⟩
  constructor
  · intro hu
    refine ⟨fun heq => hdistinct.1 (heq ▸ hu), ?_⟩
    rw [map_append, mem_append]
    rw [map_append, mem_append] at hu
    tauto
  · rintro ⟨hne, hu⟩
    rw [map_append, map_cons, mem_append, mem_cons] at hu
    rw [map_append, mem_append]
    tauto

variable {event : TargetEvent} {staleAfter : Nat} {s' : TargetCatalog}

theorem TargetStep.tableInvariant
    (hstep : TargetStep staleAfter event s s') (h : TableInvariant s) : TableInvariant s' := by
  cases hstep with
  | tick | dropData => exact ⟨h.table, h.distinct⟩
  | stop | created | creationFailed | registered | remove | removeReads | removeResumes
  | dropRead => exact h.goOn _ _
  | @register _ c t generation name hcall hfresh =>
    have hpending := ((h.table t).unissued hfresh).2.1
    refine ⟨fun u => ?_, nodup_cons.mpr ⟨hpending, h.distinct⟩⟩
    have hfacts := h.table u
    change TableFacts (s.rows u) _ (u ∈ s.activated) (s.Moved u) _
    simp only [map_cons, mem_cons]
    by_cases heq : u = t
    · subst heq
      simpa only [true_or] using hfacts.issue hfresh
    · simpa only [heq, false_or] using hfacts
  | @insert _ sooner later insert hin hfree =>
    obtain ⟨hdistinct, hmem, hiff⟩ := mem_without_insert hin h.distinct
    refine ⟨fun u => ?_, hdistinct⟩
    have hfacts := h.table u
    rw [propext (hiff u)]
    change TableFacts (update s.rows insert.tableId _ u) _ (u ∈ s.activated) (s.Moved u)
      (u ∈ s.issued)
    by_cases heq : u = insert.tableId
    · subst heq
      rw [update_self]
      simp only [ne_eq, not_true_eq_false, false_and]
      exact hfacts.inserted hmem rfl
    · simpa only [update_of_ne heq, ne_eq, heq, not_false_eq_true, true_and] using hfacts
  | @insertRefused _ sooner later insert hin =>
    obtain ⟨hdistinct, hmem, hiff⟩ := mem_without_insert hin h.distinct
    refine ⟨fun u => ?_, hdistinct⟩
    have hfacts := h.table u
    rw [propext (hiff u)]
    change TableFacts (s.rows u) _ (u ∈ s.activated) (s.Moved u) _
    by_cases heq : u = insert.tableId
    · simpa only [heq, ne_eq, not_true_eq_false, false_and] using (heq ▸ hfacts).not_pending
    · simpa only [ne_eq, heq, not_false_eq_true, true_and] using hfacts
  | refused _ hrow hif => exact h.moveToDeleting hrow (TargetRow.isOwnedBy_creating hif)
  | takeOver _ hrow =>
    refine .goOn (h.setRow hrow ?_) _ _
    rfl
  | heartbeat _ hrow | fail hrow => exact h.setRow hrow rfl
  | @activate _ c t generation row _ hrow hif =>
    refine ⟨fun u => ?_, h.distinct⟩
    have hfacts := h.table u
    change TableFacts (update s.rows t _ u) _ (u ∈ t :: s.activated) (s.Moved u) _
    by_cases heq : u = t
    · subst heq
      rw [hrow] at hfacts
      rw [update_self, eq_true mem_cons_self]
      exact hfacts.to_active (TargetRow.isOwnedBy_creating hif) rfl
    · rw [update_of_ne heq, mem_cons, or_iff_right heq]
      exact hfacts
  | removeClaims _ hrow hif => exact h.moveToDeleting hrow hif
  | @unlist _ c t fence hcall =>
    refine ⟨fun u => ?_, h.distinct⟩
    have hfacts := h.table u
    change TableFacts (update s.rows t none u) _ _ (s.Moved u) _
    by_cases heq : u = t
    · subst heq
      rw [update_self]
      exact hfacts.removed
    · rw [update_of_ne heq]
      exact hfacts

/-! ### What the calls go through -/

def TargetCall.drops? : TargetCall → Option (Nat × DropFence)
  | .dropping t fence | .droppable t fence | .unlisting t fence => some (t, fence)
  | _ => none

/-- What a fence says about the conditional writes so far. -/
def TargetCatalog.FenceHolds (s : TargetCatalog) (c t : Nat) : DropFence → Prop
  | .own => (c, t) ∈ s.moved
  | .resumed => s.Moved t
  | .none => True

variable {fence : DropFence}

theorem TargetCatalog.FenceHolds.mono
    (h : s.FenceHolds c t fence) (hmoved : s.moved ⊆ s'.moved) : s'.FenceHolds c t fence := by
  cases fence with
  | own => exact hmoved h
  | resumed =>
    obtain ⟨d, hd⟩ := h
    exact ⟨d, hmoved hd⟩
  | none => trivial

theorem TargetCatalog.FenceHolds.moved
    (h : s.FenceHolds c t fence) (hfence : fence ≠ .none) : s.Moved t := by
  cases fence with
  | own => exact ⟨c, h⟩
  | resumed => exact h
  | none => exact absurd rfl hfence

structure CallFacts (s : TargetCatalog) (c : Nat) (call : TargetCall) : Prop where
  fence : ∀ t fence, call.drops? = some (t, fence) → s.FenceHolds c t fence
  moved : ∀ t, (c, t) ∈ s.moved → call = .finished ∨ call.drops? = some (t, .own)

def CallInvariant (s : TargetCatalog) : Prop := ∀ c, CallFacts s c (s.calls c)

theorem callInvariant_initial : CallInvariant initial := by
  intro c
  constructor <;> simp [initial, TargetCall.drops?]

theorem CallInvariant.of_moved_eq (h : CallInvariant s)
    (hmoved : s'.moved = s.moved) (hcalls : s'.calls = s.calls) : CallInvariant s' := by
  intro c
  rw [hcalls]
  refine ⟨fun t fence hdrops => ((h c).fence t fence hdrops).mono ?_,
    fun t ht => (h c).moved t (hmoved ▸ ht)⟩
  rw [hmoved]
  exact List.Subset.refl _

variable {call : TargetCall}

section

variable (h : CallInvariant s)
include h

theorem CallInvariant.goOn (hcall : CallFacts s c call) : CallInvariant (s.goOn c call) := by
  intro d
  by_cases heq : d = c
  · subst heq
    rw [calls_goOn, update_self]
    exact ⟨hcall.fence, hcall.moved⟩
  · rw [calls_goOn, update_of_ne heq]
    exact ⟨(h d).fence, (h d).moved⟩

theorem CallInvariant.unmoved (hdrops : (s.calls c).drops? = none)
    (hfinished : s.calls c ≠ .finished) (t) :
    (c, t) ∉ s.moved := by
  intro ht
  rcases (h c).moved t ht with heq | heq
  · exact hfinished heq
  · rw [hdrops] at heq
    cases heq

theorem CallInvariant.goOn_early
    (hdrops : (s.calls c).drops? = none) (hfinished : s.calls c ≠ .finished)
    (hcall : call.drops? = none) : CallInvariant (s.goOn c call) :=
  h.goOn ⟨fun t fence heq => by simp [hcall] at heq,
    fun t ht => absurd ht (h.unmoved hdrops hfinished t)⟩

theorem CallInvariant.goOn_dropping (hdrops : (s.calls c).drops? = some (t, fence))
    (hfinished : s.calls c ≠ .finished) (hcall : call.drops? = some (t, fence)) :
    CallInvariant (s.goOn c call) := by
  refine h.goOn ⟨fun u f heq => ?_, fun u hu => ?_⟩
  · rw [hcall, ← hdrops] at heq
    exact (h c).fence u f heq
  · rw [hcall, ← hdrops]
    exact .inr (((h c).moved u hu).resolve_left hfinished)

theorem CallInvariant.moveToDeleting
    (hdrops : (s.calls c).drops? = none) (hfinished : s.calls c ≠ .finished) :
    CallInvariant (s.moveToDeleting c t row) := by
  intro d
  have hmoved : (s.moveToDeleting c t row).moved = (c, t) :: s.moved := rfl
  have hcalls : (s.moveToDeleting c t row).calls = update s.calls c (.dropping t .own) := rfl
  rw [hcalls]
  by_cases heq : d = c
  · subst heq
    rw [update_self]
    refine ⟨fun u fence hu => ?_, fun u hu => ?_⟩
    · cases hu
      exact mem_cons_self
    rw [hmoved] at hu
    rcases mem_cons.mp hu with heq | hold
    · cases heq
      exact .inr rfl
    · exact absurd hold (h.unmoved hdrops hfinished u)
  · rw [update_of_ne heq]
    refine ⟨fun u fence hu => ((h d).fence u fence hu).mono (subset_cons_self _ _), ?_⟩
    intro u hu
    rcases mem_cons.mp hu with heq' | hold
    · cases heq'
      exact absurd rfl heq
    · exact (h d).moved u hold

end

theorem TargetStep.callInvariant
    (hstep : TargetStep staleAfter event s s') (ht : TableInvariant s) (h : CallInvariant s) :
    CallInvariant s' := by
  cases hstep with
  | tick | insert | insertRefused | heartbeat | fail | activate => exact h.of_moved_eq rfl rfl
  | stop => exact h.goOn ⟨fun t fence heq => (by cases heq), fun _ _ => .inl rfl⟩
  | @register _ c t generation name hcall =>
    have hnext : CallInvariant (s.goOn c (.creating t generation)) :=
      h.goOn_early (by rw [hcall]; rfl) (by simp [hcall]) rfl
    exact hnext.of_moved_eq rfl rfl
  | created hcall | registered hcall | remove hcall | removeReads hcall =>
    exact h.goOn_early (by rw [hcall]; rfl) (by simp [hcall]) rfl
  | creationFailed hcall =>
    refine h.goOn ⟨fun u fence heq => ?_, fun u hu => ?_⟩
    · cases heq
      trivial
    · exact absurd hu (h.unmoved (by rw [hcall]; rfl) (by simp [hcall]) u)
  | refused hcall | removeClaims hcall =>
    exact h.moveToDeleting (by rw [hcall]; rfl) (by simp [hcall])
  | @takeOver _ c t generation row hcall =>
    have hnext : CallInvariant (s.goOn c (.owner t generation)) :=
      h.goOn_early (by rw [hcall]; rfl) (by simp [hcall]) rfl
    exact hnext.of_moved_eq rfl rfl
  | @removeResumes _ c t row hcall hrow hclaimed =>
    refine h.goOn ⟨fun u fence heq => ?_, fun u hu => ?_⟩
    · cases heq
      have hdeleting : row.status = .deleting := by
        simp only [TargetRow.isClaimedForRemoval, Bool.and_eq_true, decide_eq_true_eq] at hclaimed
        exact hclaimed.1
      exact (ht.table t).deleting row hrow hdeleting
    · exact absurd hu (h.unmoved (by rw [hcall]; rfl) (by simp [hcall]) u)
  | dropRead hcall => exact h.goOn_dropping (by rw [hcall]; rfl) (by simp [hcall]) rfl
  | @dropData _ c t fence hcall =>
    have hnext : CallInvariant (s.goOn c (.unlisting t fence)) :=
      h.goOn_dropping (by rw [hcall]; rfl) (by simp [hcall]) rfl
    exact hnext.of_moved_eq rfl rfl
  | @unlist _ c t fence hcall =>
    have hnext : CallInvariant (s.goOn c .finished) :=
      h.goOn ⟨fun t fence heq => (by cases heq), fun _ _ => .inl rfl⟩
    exact hnext.of_moved_eq rfl rfl

/-! ### The drops -/

/-- The table's id was given out, and it has no row and gets none. -/
def TargetCatalog.Gone (s : TargetCatalog) (t : Nat) : Prop :=
  t ∈ s.issued ∧ s.rows t = none ∧ t ∉ s.inserts.map PendingInsert.tableId

theorem TargetCatalog.Gone.setRow {t u} (h : s.Gone t) (hrow : s.rows u = some row) (row') :
    (s.setRow u row').Gone t := by
  have hne : t ≠ u := fun heq => by
    rw [← heq, h.2.1] at hrow
    cases hrow
  exact ⟨h.1, (update_of_ne hne ..).trans h.2.1, h.2.2⟩

theorem TargetStep.gone {t} (hstep : TargetStep staleAfter event s s') (ht : TableInvariant s)
    (h : s.Gone t) : s'.Gone t := by
  cases hstep with
  | tick | stop | created | creationFailed | registered | remove | removeReads | removeResumes
  | dropRead | dropData => exact h
  | @register _ c u generation name hcall hfresh =>
    have hne : t ≠ u := fun heq => hfresh (heq ▸ h.1)
    exact ⟨mem_cons_of_mem _ h.1, h.2.1, fun hmem => (mem_cons.mp hmem).elim hne h.2.2⟩
  | @insert _ sooner later insert hin hfree =>
    obtain ⟨-, hmem, hiff⟩ := mem_without_insert hin ht.distinct
    have hne : t ≠ insert.tableId := fun heq => h.2.2 (heq ▸ hmem)
    exact ⟨h.1, (update_of_ne hne ..).trans h.2.1, fun hlater => h.2.2 ((hiff t).mp hlater).2⟩
  | @insertRefused _ sooner later insert hin =>
    obtain ⟨-, -, hiff⟩ := mem_without_insert hin ht.distinct
    exact ⟨h.1, h.2.1, fun hlater => h.2.2 ((hiff t).mp hlater).2⟩
  | refused _ hrow | takeOver _ hrow | heartbeat _ hrow | fail hrow | activate _ hrow
  | removeClaims _ hrow => exact h.setRow hrow _
  | @unlist _ c u fence hcall =>
    refine ⟨h.1, ?_, h.2.2⟩
    by_cases heq : t = u
    · rw [heq]
      exact update_self ..
    · exact (update_of_ne heq ..).trans h.2.1

theorem TargetStep.issued_subset (hstep : TargetStep staleAfter event s s') :
    s.issued ⊆ s'.issued := by
  cases hstep with
  | register => exact subset_cons_self _ _
  | _ => exact List.Subset.refl _

/-- What a call may be about to drop in an orderly run. -/
def TargetCall.Fenced (resumes : Bool) (s : TargetCatalog) : TargetCall → Prop
  | .creating t _ => t ∈ s.issued
  | .dropping t .none => s.Gone t
  | .droppable _ .none | .unlisting _ .none => False
  | .dropping _ .resumed | .droppable _ .resumed | .unlisting _ .resumed => resumes = true
  | _ => True

variable {resumes : Bool}

theorem TargetCall.Fenced.step {call : TargetCall} (h : call.Fenced resumes s)
    (hstep : TargetStep staleAfter event s s') (ht : TableInvariant s) :
    call.Fenced resumes s' := by
  cases call with
  | creating => exact hstep.issued_subset h
  | dropping t fence =>
    cases fence with
    | none => exact hstep.gone ht h
    | _ => exact h
  | droppable t fence | unlisting t fence => cases fence <;> exact h
  | _ => trivial

/-- What holds in an orderly run: a table is dropped after a move to DELETING, which is the caller's
own where no removal is resumed. -/
structure DropInvariant (resumes : Bool) (s : TargetCatalog) : Prop where
  calls : ∀ c, (s.calls c).Fenced resumes s
  drops : ∀ d ∈ s.drops, d.afterDone = false ∧ s.Moved d.tableId ∧
    (resumes = false → (d.caller, d.tableId) ∈ s.moved)

theorem TargetStep.fenced (hstep : TargetStep staleAfter event s s')
    (horderly : event.Orderly resumes s) (ht : TableInvariant s)
    (h : ∀ c, (s.calls c).Fenced resumes s) (c) : (s'.calls c).Fenced resumes s' := by
  have hold (d) : (s.calls d).Fenced resumes s' := (h d).step hstep ht
  have hcalls {d call} (hcall : call.Fenced resumes s') :
      (update s.calls d call c).Fenced resumes s' := by
    by_cases heq : c = d
    · rwa [heq, update_self]
    · rw [update_of_ne heq]
      exact hold c
  cases hstep with
  | tick | insert | insertRefused | heartbeat | fail | activate => exact hold c
  | stop | created | registered | refused | takeOver | remove | removeReads | removeClaims
  | unlist => exact hcalls trivial
  | register => exact hcalls (mem_cons_self)
  | @creationFailed _ d t generation hcall =>
    have hissued := h d
    rw [hcall] at hissued
    exact hcalls ⟨hissued, horderly.1, horderly.2⟩
  | removeResumes => exact hcalls horderly
  | @dropRead _ d t fence row hcall hrow =>
    have hfence := h d
    rw [hcall] at hfence
    cases fence with
    | none => cases hfence.2.1.symm.trans hrow
    | _ => exact hcalls hfence
  | @dropData _ d t fence hcall =>
    have hfence := h d
    rw [hcall] at hfence
    cases fence <;> exact hcalls hfence

theorem TargetStep.moved_subset (hstep : TargetStep staleAfter event s s') : s.moved ⊆ s'.moved := by
  cases hstep with
  | refused | removeClaims => exact subset_cons_self _ _
  | _ => exact List.Subset.refl _

theorem TargetStep.dropInvariant (hstep : TargetStep staleAfter event s s')
    (horderly : event.Orderly resumes s) (ht : TableInvariant s) (hc : CallInvariant s)
    (h : DropInvariant resumes s) : DropInvariant resumes s' := by
  refine ⟨hstep.fenced horderly ht h.calls, fun d hd => ?_⟩
  have hold (d) (hd : d ∈ s.drops) : d.afterDone = false ∧ s'.Moved d.tableId ∧
      (resumes = false → (d.caller, d.tableId) ∈ s'.moved) := by
    obtain ⟨hdone, ⟨c, hmoved⟩, hown⟩ := h.drops d hd
    exact ⟨hdone, ⟨c, hstep.moved_subset hmoved⟩, fun hr => hstep.moved_subset (hown hr)⟩
  cases hstep with
  | @dropData _ c t fence hcall =>
    rcases mem_cons.mp hd with rfl | hd
    · have hfence := h.calls c
      have hholds : s.FenceHolds c t fence := (hc c).fence t fence (by rw [hcall]; rfl)
      rw [hcall] at hfence
      have hmoved : s.Moved t := hholds.moved fun heq => by rw [heq] at hfence; exact hfence
      refine ⟨by simp [((ht.table t).moved hmoved).1], hmoved, fun hr => ?_⟩
      cases fence with
      | own => exact hholds
      | resumed => cases hr.symm.trans hfence
      | none => exact hfence.elim
    · exact hold d hd
  | _ => exact hold d hd

theorem TargetReachable.invariants
    (h : TargetReachable staleAfter s) : TableInvariant s ∧ CallInvariant s := by
  induction h with
  | refl => exact ⟨tableInvariant_initial, callInvariant_initial⟩
  | tail _ hstep ih =>
    obtain ⟨event, hstep⟩ := hstep
    exact ⟨hstep.tableInvariant ih.1, hstep.callInvariant ih.1 ih.2⟩

theorem OrderlyReachable.invariants (h : OrderlyReachable staleAfter resumes s) :
    TableInvariant s ∧ CallInvariant s ∧ DropInvariant resumes s := by
  induction h with
  | refl =>
    exact ⟨tableInvariant_initial, callInvariant_initial, fun _ => trivial, by simp [initial]⟩
  | tail _ hstep ih =>
    obtain ⟨event, hstep, horderly⟩ := hstep
    obtain ⟨ht, hc, hd⟩ := ih
    exact ⟨hstep.tableInvariant ht, hstep.callInvariant ht hc, hstep.dropInvariant horderly ht hc hd⟩

/-- A caller that drops a table whose row is there without a conditional write of its own. -/
theorem drop_not_removedByOwner (hs : TargetReachable staleAfter s)
    (hcall : s.calls c = .dropping t fence) (hrow : s.rows t = some row) (hfence : fence ≠ .own) :
    ∃ s', TargetReachable staleAfter s' ∧ ¬ s'.RemovedByOwner := by
  have hread : TargetStep staleAfter .other s (s.goOn c (.droppable t fence)) :=
    .dropRead hcall hrow
  have hcall' : (s.goOn c (.droppable t fence)).calls c = .droppable t fence := by
    rw [calls_goOn, update_self]
  have hdrop := @TargetStep.dropData staleAfter _ c t fence hcall'
  refine ⟨_, (hs.tail ⟨_, hread⟩).tail ⟨_, hdrop⟩, fun hsafe => ?_⟩
  have hmoved : (c, t) ∈ s.moved := (hsafe _ mem_cons_self).1
  rcases (hs.invariants.2 c).moved t hmoved with heq | heq
  · rw [hcall] at heq
    cases heq
  · rw [hcall] at heq
    cases heq
    exact hfence rfl

/-- In every interleaving in which a creation fails only when its target has no row and gets none and
no removal is resumed, tables are removed by their movers and before DONE; where removals may be
resumed, still only after a move and before DONE.  A removal that is resumed, and a creation that
fails when the row is there or its insert can take effect, can break it. -/
theorem restore_target_removed_fenced (staleAfter : Nat) :
    (∀ s, OrderlyReachable staleAfter false s → s.RemovedByOwner) ∧
    (∀ s, OrderlyReachable staleAfter true s → s.RemovedAfterMove) ∧
    (∀ s s', TargetReachable staleAfter s → TargetStep staleAfter .resumes s s' →
      ∃ bad, TargetReachable staleAfter bad ∧ ¬ bad.RemovedByOwner) ∧
    ∀ s s' t, TargetReachable staleAfter s → TargetStep staleAfter (.creationFails t) s s' →
      (s.rows t ≠ none ∨ ∃ insert ∈ s.inserts, insert.tableId = t ∧
        ∀ u row, s.rows u = some row → row.name ≠ insert.name) →
      ∃ bad, TargetReachable staleAfter bad ∧ ¬ bad.RemovedByOwner := by
  refine ⟨fun s hs d hd => ?_, fun s hs d hd => ?_, fun s s' hs hstep => ?_,
    fun s s' t hs hstep hrow => ?_⟩
  · obtain ⟨hdone, -, hown⟩ := hs.invariants.2.2.drops d hd
    exact ⟨hown rfl, hdone⟩
  · obtain ⟨hdone, hmoved, -⟩ := hs.invariants.2.2.drops d hd
    exact ⟨hmoved, hdone⟩
  · have hs' := hs.tail ⟨_, hstep⟩
    cases hstep with
    | @removeResumes _ c t row hcall hrow hclaimed =>
      exact drop_not_removedByOwner hs' (c := c) (update_self ..) hrow (by decide)
  · have hs' := hs.tail ⟨_, hstep⟩
    cases hstep with
    | @creationFailed _ c _ generation hcall =>
      rcases hrow with hrow | ⟨insert, hinsert, rfl, hfree⟩
      · obtain ⟨row, hrow⟩ := Option.ne_none_iff_exists'.mp hrow
        exact drop_not_removedByOwner hs' (c := c) (update_self ..) hrow (by decide)
      · -- the insert takes effect before the drop reads the row
        obtain ⟨sooner, later, hin⟩ := append_of_mem hinsert
        have hinserted := hs'.tail ⟨_, @TargetStep.insert staleAfter _ sooner later insert hin hfree⟩
        exact drop_not_removedByOwner hinserted (c := c) (update_self ..) (update_self ..) (by decide)

def registeredTarget : TargetCatalog :=
  { (initial.goOn 0 (.creating 7 1)).setRow 7
      (some ⟨"target", .creating, .running, 1, 0⟩) with
    issued := [7]
    inserted := [7] }

theorem registeredTarget_reachable (staleAfter) (resumes) :
    OrderlyReachable staleAfter resumes registeredTarget := by
  refine .head ⟨_, @TargetStep.register _ _ 0 7 1 "target" rfl not_mem_nil, trivial⟩ ?_
  exact .single ⟨_, @TargetStep.insert _ _ [] [] ⟨7, "target", 1⟩ rfl
      (fun t row hrow => by cases hrow),
    trivial⟩

/-- A refused registration moves its target to DELETING and drops it, while a second one for the same
name fails because its insert is refused. -/
theorem restore_target_removed_fenced_refused :
    ∃ s, OrderlyReachable 1 false s ∧ s.drops = [⟨0, 7, false⟩] ∧ s.calls 1 = .dropping 8 .none ∧
      s.RemovedByOwner := by
  let failed := { registeredTarget.goOn 1 (.creating 8 5) with issued := [8, 7] }.goOn 1
    (.dropping 8 .none)
  let moved := (failed.goOn 0 (.registering 7 1)).moveToDeleting 0 7
    ⟨"target", .creating, .failed, 1, 0⟩
  let dropped : TargetCatalog := { (moved.goOn 0 (.droppable 7 .own)).goOn 0 (.unlisting 7 .own) with
    drops := [⟨0, 7, false⟩] }
  have hreachable : OrderlyReachable 1 false dropped := by
    refine (registeredTarget_reachable 1 false).trans ?_
    refine .head ⟨_, @TargetStep.register _ _ 1 8 5 "target" rfl (by decide), trivial⟩ ?_
    refine .head ⟨_, @TargetStep.insertRefused _ _ [] [] ⟨8, "target", 5⟩ rfl, trivial⟩ ?_
    refine .head ⟨_, .creationFailed (c := 1) rfl, rfl, not_mem_nil⟩ ?_
    refine .head ⟨_, .created (c := 0) rfl (mem_singleton_self 7), trivial⟩ ?_
    refine .head ⟨_, .refused (c := 0) rfl rfl rfl, trivial⟩ ?_
    refine .head ⟨_, .dropRead (c := 0) rfl rfl, trivial⟩ ?_
    exact .single ⟨_, .dropData (c := 0) rfl, trivial⟩
  exact ⟨dropped, hreachable, rfl, rfl, (restore_target_removed_fenced 1).1 dropped hreachable⟩

/-- The creation's last statement fails late: by then a reconciler has taken the record over, loaded
the table and flipped it ACTIVE, and the registration drops it. -/
theorem restore_target_dropped_after_done :
    ∃ s, TargetReachable 1 s ∧ ∃ d ∈ s.drops, d.afterDone = true ∧
      (d.caller, d.tableId) ∉ s.moved := by
  let taken := ({ registeredTarget with now := 2 }.setRow 7
    (some ⟨"target", .creating, .running, 2, 2⟩)).goOn 1 (.owner 7 2)
  let done : TargetCatalog := { taken.setRow 7 (some ⟨"target", .active, .done, 2, 2⟩) with
    activated := [7] }
  let dropped : TargetCatalog := { ((done.goOn 0 (.dropping 7 .none)).goOn 0
      (.droppable 7 .none)).goOn 0 (.unlisting 7 .none) with
    drops := [⟨0, 7, true⟩] }
  have hreachable : TargetReachable 1 dropped := by
    refine .trans (.mono (fun s s' ⟨event, hstep, _⟩ => ⟨event, hstep⟩) _ _
      (registeredTarget_reachable 1 true)) ?_
    refine .head ⟨_, .tick⟩ ?_
    refine .head ⟨_, .tick⟩ ?_
    refine .head ⟨_, @TargetStep.takeOver 1 _ 1 7 2 _ rfl rfl rfl (by change 0 + 1 < 2; decide)⟩ ?_
    refine .head ⟨_, .activate (c := 1) rfl rfl rfl⟩ ?_
    refine .head ⟨_, .creationFailed (c := 0) rfl⟩ ?_
    refine .head ⟨_, .dropRead (c := 0) rfl rfl⟩ ?_
    exact .single ⟨_, .dropData (c := 0) rfl⟩
  exact ⟨dropped, hreachable, _, mem_singleton.mpr rfl, rfl, not_mem_nil⟩

end ExtendDb.Cassandra
