import Mathlib.Data.List.Lex

/-!
# The write timestamp as the fence of a Cassandra restore

The item writes of a restore carry no condition.
-/

namespace ExtendDb.Cassandra

open List Function

variable {α κ ι : Type}

/-- The rows an item has in the target: its key and text, and the rows of the indexes whose key
attributes it has, with the projected text. -/
structure RestoreLayout (α κ ι : Type) where
  rowKey : α → κ
  itemText : α → String
  indexRows : α → List (ι × String)

inductive TargetCell (κ ι : Type) where
  | itemData (key : κ)
  | version (key : κ)
  | indexRow (row : ι)
deriving DecidableEq

inductive CellValue where
  | text (value : String)
  | version (value : Nat)
  | tombstone
deriving DecidableEq

structure CellWrite (κ ι : Type) where
  cell : TargetCell κ ι
  stamp : Nat
  value : CellValue
deriving DecidableEq

def RestoreLayout.putRestoredItemAt (layout : RestoreLayout α κ ι) (item : α) (stamp : Nat) :
    List (CellWrite κ ι) :=
  ⟨.itemData (layout.rowKey item), stamp, .text (layout.itemText item)⟩ ::
    ⟨.version (layout.rowKey item), stamp, .version stamp⟩ ::
    (layout.indexRows item).map fun row => ⟨.indexRow row.1, stamp, .text row.2⟩

inductive OwnerPhase where
  | idle
  /-- The clock is read. -/
  | stamped (stamp : Nat)
  /-- The claim is confirmed and the writes of the batch are sent. -/
  | flushing (stamp size : Nat)
deriving DecidableEq

structure OwnedWrite (κ ι : Type) where
  owner : Nat
  position : Nat
  write : CellWrite κ ι

/-- A write a replica has: a restore's or a client's, and whether it landed after the takeover that
fenced its owner out. -/
structure LandedWrite (κ ι : Type) where
  write : CellWrite κ ι
  late : Bool

structure RestoreFence (κ ι : Type) where
  now : Nat
  generation : Nat
  /-- When the record was taken over last. -/
  takenAt : Nat
  /-- Items of the backup the record counts as applied. -/
  recorded : Nat
  /-- When the table became ACTIVE. -/
  activeAt : Option Nat
  phases : Nat → OwnerPhase
  inFlight : List (OwnedWrite κ ι)
  landed : List (LandedWrite κ ι)

def RestoreFence.initial (κ ι : Type) : RestoreFence κ ι where
  now := 0
  generation := 0
  takenAt := 0
  recorded := 0
  activeAt := none
  phases _ := .idle
  inFlight := []
  landed := []

def batchWrites (layout : RestoreLayout α κ ι) (items : List α) (owner start size stamp : Nat) :
    List (OwnedWrite κ ι) :=
  (range' start size).flatMap fun position =>
    (items[position]?.toList.flatMap fun item => layout.putRestoredItemAt item stamp).map
      fun write => ⟨owner, position, write⟩

/-- One step; an owner that stalls or ends takes no more steps, and a write that never lands stays in
flight. -/
inductive FenceStep (layout : RestoreLayout α κ ι) (items : List α) :
    RestoreFence κ ι → RestoreFence κ ι → Prop where
  | tick {s time} (htime : s.now ≤ time) : FenceStep layout items s { s with now := time }
  | takeOver {s} (hrunning : s.activeAt = none) : FenceStep layout items s { s with
        generation := s.generation + 1
        takenAt := s.now
        phases := update s.phases (s.generation + 1) .idle }
  | readClock {s g} (hphase : s.phases g = .idle) (howner : g ≤ s.generation) :
      FenceStep layout items s { s with phases := update s.phases g (.stamped s.now) }
  -- `confirm_restore_claim` is applied, and the writes of the next batch are sent
  | confirm {s g stamp size} (hphase : s.phases g = .stamped stamp) (hclaim : g = s.generation)
      (hrunning : s.activeAt = none) (hsize : s.recorded + size ≤ items.length) :
      FenceStep layout items s { s with
        phases := update s.phases g (.flushing stamp size)
        inFlight := batchWrites layout items g s.recorded size stamp ++ s.inFlight }
  | land {s sooner later w} (hin : s.inFlight = sooner ++ w :: later) :
      FenceStep layout items s { s with
        inFlight := sooner ++ later
        landed := ⟨w.write, decide (w.owner ≠ s.generation)⟩ :: s.landed }
  -- every write of the batch is acknowledged, and the record is still the owner's
  | writeProgress {s g stamp size} (hphase : s.phases g = .flushing stamp size)
      (hacked : ∀ w ∈ s.inFlight, w.owner ≠ g) (hclaim : g = s.generation)
      (hrunning : s.activeAt = none) : FenceStep layout items s { s with
        recorded := s.recorded + size
        phases := update s.phases g .idle }
  -- `finish_restore`, after the last batch's progress
  | activate {s} (hphase : s.phases s.generation = .idle) (hrecorded : s.recorded = items.length)
      (hrunning : s.activeAt = none) : FenceStep layout items s { s with activeAt := some s.now }
  -- a put, an update or a delete of a client
  | clientWrite {s flip write} (hactive : s.activeAt = some flip) (hlater : flip < write.stamp) :
      FenceStep layout items s { s with landed := ⟨write, false⟩ :: s.landed }

/-- The states of all interleavings. -/
def FenceReachable (layout : RestoreLayout α κ ι) (items : List α) (s : RestoreFence κ ι) : Prop :=
  Relation.ReflTransGen (FenceStep layout items) (RestoreFence.initial κ ι) s

/-- The writes without those of fenced-out owners that landed after the takeover. -/
def RestoreFence.undisturbed (s : RestoreFence κ ι) : List (CellWrite κ ι) :=
  (s.landed.filter fun w => !w.late).map LandedWrite.write

def RestoreFence.written (s : RestoreFence κ ι) : List (CellWrite κ ι) :=
  s.landed.map LandedWrite.write

def CellHolds (writes : List (CellWrite κ ι)) (cell : TargetCell κ ι) (value : CellValue) : Prop :=
  ∃ w ∈ writes, w.cell = cell ∧ w.value = value ∧ ∀ w' ∈ writes, w'.cell = cell → w'.stamp ≤ w.stamp

/-- Some write takes the place of another: the same cell, a timestamp that is not smaller, and at the
same timestamp the same value. -/
def Covered (writes : List (CellWrite κ ι)) (w : CellWrite κ ι) : Prop :=
  ∃ w' ∈ writes, w'.cell = w.cell ∧ w.stamp ≤ w'.stamp ∧ (w'.stamp = w.stamp → w' = w)

theorem keeps_iff_of_covered {all kept} (hsub : kept ⊆ all) (hcovered : ∀ w ∈ all, Covered kept w)
    (cell : TargetCell κ ι) (value) :
    CellHolds all cell value ↔ CellHolds kept cell value := by
  constructor
  · rintro ⟨w, hw, hcell, hvalue, hmax⟩
    obtain ⟨w', hw', hcell', hle, heq⟩ := hcovered w hw
    have hstamp := hmax w' (hsub hw') (hcell'.trans hcell)
    have hsame : w' = w := heq (Nat.le_antisymm hstamp hle)
    subst hsame
    exact ⟨w', hw', hcell, hvalue, fun v hv => hmax v (hsub hv)⟩
  · rintro ⟨w, hw, hcell, hvalue, hmax⟩
    refine ⟨w, hsub hw, hcell, hvalue, fun v hv hvcell => ?_⟩
    obtain ⟨v', hv', hvcell', hle, _⟩ := hcovered v hv
    exact Nat.le_trans hle (hmax v' hv' (hvcell'.trans hvcell))

variable {w : CellWrite κ ι} {stamp : Nat}

theorem RestoreLayout.restamp (layout : RestoreLayout α κ ι) (item) {stamp'}
    (hw : w ∈ layout.putRestoredItemAt item stamp) (hle : stamp ≤ stamp') :
    Covered (layout.putRestoredItemAt item stamp') w := by
  simp only [putRestoredItemAt, mem_cons, mem_map] at hw
  rcases hw with rfl | rfl | ⟨row, hrow, rfl⟩
  · exact ⟨_, mem_cons_self, rfl, hle, fun heq => by cases heq; rfl⟩
  · exact ⟨_, mem_cons_of_mem _ mem_cons_self, rfl, hle, fun heq => by cases heq; rfl⟩
  · refine ⟨⟨.indexRow row.1, stamp', .text row.2⟩, ?_, rfl, hle, fun heq => by cases heq; rfl⟩
    exact mem_cons_of_mem _ (mem_cons_of_mem _ (mem_map_of_mem hrow))

theorem mem_batchWrites {layout} {items : List α} {owner start size} {w : OwnedWrite κ ι} :
    w ∈ batchWrites layout items owner start size stamp ↔
      w.owner = owner ∧ start ≤ w.position ∧ w.position < start + size ∧
        ∃ item, items[w.position]? = some item ∧ w.write ∈ layout.putRestoredItemAt item stamp := by
  obtain ⟨o, p, write⟩ := w
  simp only [batchWrites, mem_flatMap, mem_range'_1, mem_map, Option.mem_toList,
    OwnedWrite.mk.injEq]
  constructor
  · rintro ⟨q, ⟨hle, hlt⟩, v, ⟨item, hitem, hv⟩, rfl, rfl, rfl⟩
    exact ⟨rfl, hle, hlt, item, hitem, hv⟩
  · rintro ⟨rfl, hle, hlt, item, hitem, hv⟩
    exact ⟨p, ⟨hle, hlt⟩, write, ⟨item, hitem, hv⟩, rfl, rfl, rfl⟩

theorem RestoreLayout.stamp_of_mem {layout : RestoreLayout α κ ι} {item}
    (hw : w ∈ layout.putRestoredItemAt item stamp) : w.stamp = stamp := by
  simp only [putRestoredItemAt, mem_cons, mem_map] at hw
  rcases hw with rfl | rfl | ⟨row, _, rfl⟩ <;> rfl

theorem Covered.mono {writes writes'} (h : Covered writes w) (hsub : writes ⊆ writes') :
    Covered writes' w := by
  obtain ⟨w', hw', hrest⟩ := h
  exact ⟨w', hsub hw', hrest⟩

theorem RestoreFence.undisturbed_subset (s : RestoreFence κ ι) : s.undisturbed ⊆ s.written :=
  map_subset _ (filter_sublist.subset)

open RestoreFence

theorem undisturbed_cons {s s' : RestoreFence κ ι} {l} (h : s'.landed = l :: s.landed) :
    s.undisturbed ⊆ s'.undisturbed := by
  rw [undisturbed, undisturbed, h]
  exact map_subset _ ((sublist_cons_self ..).filter _).subset

section

variable (layout : RestoreLayout α κ ι) (items : List α)

def RestoreFence.Harmless (s : RestoreFence κ ι) (position : Nat) (w : CellWrite κ ι) : Prop :=
  (∃ item, items[position]? = some item ∧ w ∈ layout.putRestoredItemAt item w.stamp) ∧
    (s.recorded ≤ position ∨ Covered s.undisturbed w)

def RestoreFence.BatchSent (s : RestoreFence κ ι) (stamp size : Nat) : Prop :=
  ∀ position item w, s.recorded ≤ position → position < s.recorded + size →
    items[position]? = some item → w ∈ layout.putRestoredItemAt item stamp →
    (∃ o ∈ s.inFlight, o.owner = s.generation ∧ o.write = w) ∨ w ∈ s.undisturbed

structure FenceInvariant (s : RestoreFence κ ι) : Prop where
  taken : s.takenAt ≤ s.now
  stamped : ∀ stamp, s.phases s.generation = .stamped stamp →
    s.takenAt ≤ stamp ∧ stamp ≤ s.now
  flushing : ∀ stamp size, s.phases s.generation = .flushing stamp size →
    s.takenAt ≤ stamp ∧ s.BatchSent layout items stamp size
  flight : ∀ o ∈ s.inFlight, o.owner ≤ s.generation ∧ o.write.stamp ≤ s.now ∧
    (o.owner < s.generation → o.write.stamp ≤ s.takenAt) ∧
    (o.owner = s.generation → ∃ stamp size, s.phases s.generation = .flushing stamp size) ∧
    s.Harmless layout items o.position o.write
  late : ∀ l ∈ s.landed, l.late = true → l.write.stamp ≤ s.takenAt ∧
    ∃ position, s.Harmless layout items position l.write
  active : s.activeAt ≠ none → s.recorded = items.length ∧
    ∀ stamp size, s.phases s.generation ≠ .flushing stamp size

end

variable {layout : RestoreLayout α κ ι} {items : List α}

theorem fenceInvariant_initial : FenceInvariant layout items (initial κ ι) := by
  constructor <;> simp [initial]

variable {s : RestoreFence κ ι}

theorem RestoreFence.Harmless.mono {s' : RestoreFence κ ι} {position}
    (h : s.Harmless layout items position w) (hrecorded : s'.recorded = s.recorded)
    (hsub : s.undisturbed ⊆ s'.undisturbed) : s'.Harmless layout items position w := by
  refine ⟨h.1, ?_⟩
  rw [hrecorded]
  exact h.2.imp_right fun hcovered => hcovered.mono hsub

theorem RestoreFence.BatchSent.cover {size position} (h : s.BatchSent layout items stamp size)
    (hacked : ∀ o ∈ s.inFlight, o.owner ≠ s.generation) (hstamp : w.stamp ≤ stamp)
    (hw : s.Harmless layout items position w) :
    s.recorded + size ≤ position ∨ Covered s.undisturbed w := by
  obtain ⟨⟨item, hitem, hmem⟩, hrecorded | hcovered⟩ := hw
  · by_cases hlt : position < s.recorded + size
    · obtain ⟨w', hw', hrest⟩ := layout.restamp item hmem hstamp
      rcases h position item w' hrecorded hlt hitem hw' with ⟨o, ho, howner, _⟩ | hlanded
      · exact absurd howner (hacked o ho)
      · exact .inr ⟨w', hlanded, hrest⟩
    · exact .inl (Nat.le_of_not_lt hlt)
  · exact .inr hcovered

theorem FenceStep.invariant {s' : RestoreFence κ ι} (hstep : FenceStep layout items s s')
    (h : FenceInvariant layout items s) : FenceInvariant layout items s' := by
  cases hstep with
  | @tick time htime =>
    refine ⟨Nat.le_trans h.taken htime, fun stamp hphase => ?_, h.flushing, fun o ho => ?_, h.late,
      h.active⟩
    · obtain ⟨hle, hnow⟩ := h.stamped stamp hphase
      exact ⟨hle, Nat.le_trans hnow htime⟩
    · obtain ⟨howner, hnow, hrest⟩ := h.flight o ho
      exact ⟨howner, Nat.le_trans hnow htime, hrest⟩
  | takeOver hrunning =>
    have hidle : update s.phases (s.generation + 1) .idle (s.generation + 1) =
        .idle := update_self ..
    refine ⟨Nat.le_refl _, fun stamp hphase => ?_, fun stamp size hphase => ?_, fun o ho => ?_,
      fun l hl hlate => ?_, fun hactive => absurd hrunning hactive⟩
    · cases hidle.symm.trans hphase
    · cases hidle.symm.trans hphase
    · obtain ⟨howner, hnow, _, _, hharmless⟩ := h.flight o ho
      refine ⟨Nat.le_succ_of_le howner, hnow, fun _ => hnow, fun heq => ?_, hharmless⟩
      change o.owner = s.generation + 1 at heq
      omega
    · obtain ⟨hstamp, hharmless⟩ := h.late l hl hlate
      exact ⟨Nat.le_trans hstamp h.taken, hharmless⟩
  | @readClock g hphase howner =>
    have hflushing : ∀ stamp size, update s.phases g (.stamped s.now) s.generation =
        .flushing stamp size ↔ s.phases s.generation = .flushing stamp size := by
      intro stamp size
      by_cases heq : s.generation = g
      · rw [heq, hphase]
        simp
      · rw [update_of_ne heq]
    refine ⟨h.taken, fun stamp hstamped => ?_, fun stamp size hflush => ?_, fun o ho => ?_, h.late,
      fun hactive => ?_⟩
    · change update s.phases g (.stamped s.now) s.generation = .stamped stamp at hstamped
      by_cases heq : s.generation = g
      · rw [heq, update_self] at hstamped
        cases hstamped
        exact ⟨h.taken, Nat.le_refl _⟩
      · rw [update_of_ne heq] at hstamped
        exact h.stamped stamp hstamped
    · exact h.flushing stamp size ((hflushing stamp size).mp hflush)
    · obtain ⟨hle, hnow, hold, hcurrent, hharmless⟩ := h.flight o ho
      refine ⟨hle, hnow, hold, fun heq => ?_, hharmless⟩
      obtain ⟨stamp, size, hflush⟩ := hcurrent heq
      exact ⟨stamp, size, (hflushing stamp size).mpr hflush⟩
    · obtain ⟨hall, hnot⟩ := h.active hactive
      exact ⟨hall, fun stamp size hflush => hnot stamp size ((hflushing stamp size).mp hflush)⟩
  | @confirm g stamp size hphase hclaim hrunning hsize =>
    subst hclaim
    obtain ⟨hle, hnow⟩ := h.stamped stamp hphase
    have hself : update s.phases s.generation (.flushing stamp size) s.generation =
        .flushing stamp size := update_self ..
    refine ⟨h.taken, fun stamp' hstamped => ?_, fun stamp' size' hflush => ?_, fun o ho => ?_, h.late,
      fun hactive => absurd hrunning hactive⟩
    · cases hself.symm.trans hstamped
    · cases hself.symm.trans hflush
      refine ⟨hle, fun position item w hfrom hto hitem hw => .inl ?_⟩
      refine ⟨⟨s.generation, position, w⟩, mem_append_left _ ?_, rfl, rfl⟩
      exact mem_batchWrites.mpr ⟨rfl, hfrom, hto, item, hitem, hw⟩
    · rcases mem_append.mp ho with hnew | hold
      · obtain ⟨howner, hfrom, _, item, hitem, hw⟩ := mem_batchWrites.mp hnew
        have hstamp := layout.stamp_of_mem hw
        exact ⟨Nat.le_of_eq howner, Nat.le_trans (Nat.le_of_eq hstamp) hnow,
          fun hlt => absurd howner (Nat.ne_of_lt hlt), fun _ => ⟨stamp, size, hself⟩,
          ⟨item, hitem, hstamp.symm ▸ hw⟩, .inl hfrom⟩
      · obtain ⟨howner, hnow', hbefore, _, hharmless⟩ := h.flight o hold
        exact ⟨howner, hnow', hbefore, fun _ => ⟨stamp, size, hself⟩, hharmless⟩
  | @land sooner later w hin =>
    have hmem : w ∈ s.inFlight := by simp [hin]
    obtain ⟨howner, hnow, hbefore, hcurrent, hharmless⟩ := h.flight w hmem
    have hsub : ∀ o ∈ sooner ++ later, o ∈ s.inFlight := by
      intro o ho
      rw [hin]
      simp only [mem_append] at ho ⊢
      tauto
    refine ⟨h.taken, h.stamped, fun stamp size hflush => ?_, fun o ho => ?_, fun l hl hlate => ?_,
      h.active⟩
    · obtain ⟨hle, hsent⟩ := h.flushing stamp size hflush
      refine ⟨hle, fun position item v hfrom hto hitem hv => ?_⟩
      rcases hsent position item v hfrom hto hitem hv with ⟨o, ho, hgen, rfl⟩ | hlanded
      · rw [hin] at ho
        simp only [mem_append, mem_cons] at ho
        rcases ho with ho | rfl | ho
        · exact .inl ⟨o, mem_append_left _ ho, hgen, rfl⟩
        · refine .inr ?_
          simp [undisturbed, hgen]
        · exact .inl ⟨o, mem_append_right _ ho, hgen, rfl⟩
      · exact .inr (undisturbed_cons rfl hlanded)
    · obtain ⟨hle, hnow', hbefore', hcurrent', hharmless'⟩ := h.flight o (hsub o ho)
      exact ⟨hle, hnow', hbefore', hcurrent', hharmless'.mono rfl (undisturbed_cons rfl)⟩
    · rcases mem_cons.mp hl with rfl | hl
      · have hlt : w.owner < s.generation := by
          have hne : w.owner ≠ s.generation := of_decide_eq_true hlate
          omega
        exact ⟨hbefore hlt, w.position, hharmless.mono rfl (undisturbed_cons rfl)⟩
      · obtain ⟨hstamp, position, hharmless'⟩ := h.late l hl hlate
        exact ⟨hstamp, position, hharmless'.mono rfl (undisturbed_cons rfl)⟩
  | @writeProgress g stamp size hphase hacked hclaim hrunning =>
    subst hclaim
    obtain ⟨hle, hsent⟩ := h.flushing stamp size hphase
    have hself : update s.phases s.generation .idle s.generation = .idle :=
      update_self ..
    refine ⟨h.taken, fun stamp' hstamped => ?_, fun stamp' size' hflush => ?_, fun o ho => ?_,
      fun l hl hlate => ?_, fun hactive => absurd hrunning hactive⟩
    · cases hself.symm.trans hstamped
    · cases hself.symm.trans hflush
    · obtain ⟨howner, hnow, hbefore, _, hharmless⟩ := h.flight o ho
      have hne := hacked o ho
      have hstamp : o.write.stamp ≤ stamp := Nat.le_trans (hbefore (by omega)) hle
      exact ⟨howner, hnow, hbefore, fun heq => absurd heq hne, hharmless.1,
        hsent.cover hacked hstamp hharmless⟩
    · obtain ⟨hstamp, position, hharmless⟩ := h.late l hl hlate
      exact ⟨hstamp, position, hharmless.1, hsent.cover hacked (Nat.le_trans hstamp hle) hharmless⟩
  | activate hphase hrecorded hrunning =>
    refine ⟨h.taken, h.stamped, h.flushing, h.flight, h.late, fun _ => ⟨hrecorded, ?_⟩⟩
    intro stamp size hflush
    rw [hphase] at hflush
    cases hflush
  | @clientWrite flip write hactive hlater =>
    obtain ⟨hall, hnot⟩ := h.active (by simp [hactive])
    refine ⟨h.taken, h.stamped, fun stamp size hflush => absurd hflush (hnot stamp size),
      fun o ho => ?_, fun l hl hlate => ?_, h.active⟩
    · obtain ⟨hle, hnow, hbefore, hcurrent, hharmless⟩ := h.flight o ho
      exact ⟨hle, hnow, hbefore, hcurrent, hharmless.mono rfl (undisturbed_cons rfl)⟩
    rcases mem_cons.mp hl with rfl | hl
    · cases hlate
    · obtain ⟨hstamp, position, hharmless⟩ := h.late l hl hlate
      exact ⟨hstamp, position, hharmless.mono rfl (undisturbed_cons rfl)⟩

theorem FenceReachable.invariant (h : FenceReachable layout items s) :
    FenceInvariant layout items s := by
  induction h with
  | refl => exact fenceInvariant_initial
  | tail _ hstep ih => exact hstep.invariant ih

/-- Once the table is ACTIVE, at any time and whatever has landed since, every cell keeps the value
it would keep without the writes of fenced-out owners that landed after the takeover. -/
theorem stalled_writer_harmless {s : RestoreFence κ ι} (h : FenceReachable layout items s)
    (hactive : s.activeAt ≠ none) (cell : TargetCell κ ι) (value : CellValue) :
    CellHolds s.written cell value ↔ CellHolds s.undisturbed cell value := by
  refine keeps_iff_of_covered s.undisturbed_subset (fun w hw => ?_) cell value
  obtain ⟨l, hl, rfl⟩ := mem_map.mp hw
  cases hlate : l.late with
  | false =>
    refine ⟨l.write, ?_, rfl, Nat.le_refl _, fun _ => rfl⟩
    exact mem_map.mpr ⟨l, mem_filter.mpr ⟨hl, by simp [hlate]⟩, rfl⟩
  | true =>
    obtain ⟨_, position, ⟨item, hitem, _⟩, hrecorded | hcovered⟩ := h.invariant.late l hl hlate
    · have hlt : position < items.length := (List.getElem?_eq_some_iff.mp hitem).1
      have hall := (h.invariant.active hactive).1
      exact absurd hrecorded (by omega)
    · exact hcovered

def singleRow : RestoreLayout Unit Unit Empty := ⟨fun _ => (), fun _ => "item", fun _ => []⟩

def textWrite (owner stamp : Nat) : OwnedWrite Unit Empty :=
  ⟨owner, 0, ⟨.itemData (), stamp, .text "item"⟩⟩

def versionWrite (owner stamp : Nat) : OwnedWrite Unit Empty :=
  ⟨owner, 0, ⟨.version (), stamp, .version stamp⟩⟩

def stalledWriter : RestoreFence Unit Empty where
  now := 5
  generation := 1
  takenAt := 5
  recorded := 1
  activeAt := some 5
  phases := update (update (update (update (update
    (update (fun _ => .idle) 0 (.stamped 0)) 0 (.flushing 0 1)) 1 .idle) 1 (.stamped 5)) 1
    (.flushing 5 1)) 1 .idle
  inFlight := [textWrite 0 0]
  landed := [⟨(versionWrite 0 0).write, true⟩, ⟨(versionWrite 1 5).write, false⟩,
    ⟨(textWrite 1 5).write, false⟩]

theorem stalledWriter_reachable : FenceReachable singleRow [()] stalledWriter := by
  refine .head (.readClock (g := 0) rfl (Nat.le_refl 0)) ?_
  refine .head (.confirm (g := 0) rfl rfl rfl (show 0 + 1 ≤ 1 from Nat.le_refl 1)) ?_
  refine .head (.tick (Nat.zero_le 5)) ?_
  refine .head (.takeOver rfl) ?_
  refine .head (.readClock (g := 1) rfl (Nat.le_refl 1)) ?_
  refine .head (.confirm (g := 1) rfl rfl rfl (show 0 + 1 ≤ 1 from Nat.le_refl 1)) ?_
  refine .head (@FenceStep.land _ _ _ _ _ _ [] _ (textWrite 1 5) rfl) ?_
  refine .head (@FenceStep.land _ _ _ _ _ _ [] _ (versionWrite 1 5) rfl) ?_
  refine .head (.writeProgress (g := 1) rfl (fun w hw => ?_) rfl rfl) ?_
  · rcases mem_cons.mp hw with rfl | hw
    · decide
    · rw [mem_singleton.mp hw]
      decide
  refine .head (.activate rfl rfl rfl) ?_
  exact .single (@FenceStep.land _ _ _ _ _ _ [textWrite 0 0] [] (versionWrite 0 0) rfl)

theorem stalled_writer_harmless_version : (versionWrite 0 0).write ∈ stalledWriter.written ∧
      CellHolds stalledWriter.written (.version ()) (.version 5) := by
  refine ⟨by simp [written, stalledWriter], ?_⟩
  rw [stalled_writer_harmless stalledWriter_reachable (by simp [stalledWriter])]
  refine ⟨(versionWrite 1 5).write, by simp [undisturbed, stalledWriter], rfl, rfl, ?_⟩
  intro w hw _
  simp [undisturbed, stalledWriter] at hw
  rcases hw with rfl | rfl
  all_goals exact Nat.le_refl 5

end ExtendDb.Cassandra
