import ExtendDb.Storage.KeyText
import ExtendDb.Theory.DueQueue
import ExtendDb.Theory.EventRun

/-!
# The propagation queue of a global secondary index

A write with an effective delay of zero changes the index in its own transaction; any other write
adds a row with its two images to `gsi_pending`, and a worker applies the due rows in batches.
-/

namespace ExtendDb.Sqlite

open DueQueue List Function

structure GsiSetup (β γ : Type) where
  tableId : ℕ
  baseKeySchema : List KeySchemaElement
  keySchema : List KeySchemaElement
  projection : Projection
  baseColumns : Item → β
  indexColumns : Item → γ
  partitionFor : β → ℕ

/-- A row of the index table; both kinds of columns are its primary key. -/
structure GsiRow (β γ : Type) where
  columns : γ
  base : β
  item : Item
deriving DecidableEq

structure GsiWork (β : Type) where
  key : β
  old : Option Item
  new : Option Item

structure GsiPending (β τ : Type) where
  table : ℕ
  partition : ℕ
  readyAt : τ
  work : Option (GsiWork β)

structure GsiState (β γ τ : Type) where
  base : β → Option Item
  rows : List (GsiRow β γ)
  queue : List (GsiPending β τ)

structure DelaySetting where
  propagationDelayMs : Option ℤ
  systemDefault : ℕ

def effectiveDelay (d : DelaySetting) : ℕ :=
  match d.propagationDelayMs with
  | some 0 => 0
  | some ms => if 0 < ms then ms.toNat else d.systemDefault
  | none => d.systemDefault

/-- What happens to the table and its queue.  `candidate` is the ready time drawn from the clock and
the jitter. -/
inductive GsiEvent (β τ : Type) where
  | put (item : Item) (delay : DelaySetting) (candidate : τ)
  | delete (key : β) (delay : DelaySetting) (candidate : τ)
  /-- A row for another index or table. -/
  | other (table partition : ℕ) (candidate : τ)
  /-- `process_gsi_batch`.  The rows of a table that is `held` are not claimed, and a claimed row
  that cannot be processed is dropped. -/
  | batch (now : τ) (limit : ℕ) (held : ℕ → Bool) (unprocessable : GsiPending β τ → Bool)

variable {β γ τ : Type}

section

variable [DecidableEq β] [DecidableEq γ] [LinearOrder τ] (setup : GsiSetup β γ)

def gsiRow (item : Item) : GsiRow β γ where
  columns := setup.indexColumns item
  base := setup.baseColumns item
  item := projectItemForIndex item setup.keySchema setup.baseKeySchema setup.projection

def gsiRowsOf : Option Item → List (GsiRow β γ)
  | some item => if itemHasIndexKeys item setup.keySchema then [gsiRow setup item] else []
  | none => []

section

variable (rows : List (GsiRow β γ))

def deleteIndexRow (item : Item) : List (GsiRow β γ) :=
  rows.filter fun row => row.base ≠ setup.baseColumns item

def insertIndexRow (item : Item) : List (GsiRow β γ) :=
  (rows.filter fun row => ¬ (row.columns = setup.indexColumns item ∧
    row.base = setup.baseColumns item)) ++ [gsiRow setup item]

def applyImages (old new : Option Item) : List (GsiRow β γ) :=
  let deleted := match old with
    | some item =>
      if itemHasIndexKeys item setup.keySchema then deleteIndexRow setup rows item else rows
    | none => rows
  match new with
  | some item =>
    if itemHasIndexKeys item setup.keySchema then insertIndexRow setup deleted item else deleted
  | none => deleted

def syncIndexes (old new : Option Item) : List (GsiRow β γ) :=
  applyImages setup rows old new

def applyClaimedRow (work : GsiWork β) : List (GsiRow β γ) :=
  applyImages setup rows work.old work.new

end

def partMax (queue : List (GsiPending β τ)) (partition : ℕ) : Option τ :=
  ((queue.filter fun row => row.partition = partition).map (·.readyAt)).max?

def enqueuePendingRow (queue : List (GsiPending β τ)) (table partition : ℕ) (candidate : τ)
    (work : Option (GsiWork β)) : List (GsiPending β τ) :=
  let readyAt := match partMax queue partition with
    | some prev => if candidate < prev then prev else candidate
    | none => candidate
  queue ++ [⟨table, partition, readyAt, work⟩]

namespace GsiState

def write (s : GsiState β γ τ) (key : β) (new : Option Item) (delay : DelaySetting)
    (candidate : τ) : GsiState β γ τ :=
  let base := update s.base key new
  if effectiveDelay delay = 0 then
    { s with base, rows := syncIndexes setup s.rows (s.base key) new }
  else
    let work : GsiWork β := ⟨key, s.base key, new⟩
    let queue := enqueuePendingRow s.queue setup.tableId (setup.partitionFor key) candidate work
    { s with base, queue }

def applyClaimed (unprocessable : GsiPending β τ → Bool) (rows : List (GsiRow β γ))
    (claimed : List (GsiPending β τ)) : List (GsiRow β γ) :=
  claimed.foldl (fun rows row =>
    match row.work with
    | some work => if unprocessable row then rows else applyClaimedRow setup rows work
    | none => rows) rows

def step (s : GsiState β γ τ) : GsiEvent β τ → Option (GsiState β γ τ)
  | .put item delay candidate =>
    some (s.write setup (setup.baseColumns item) (some item) delay candidate)
  | .delete key delay candidate =>
    -- deleting a missing item changes nothing
    some (if (s.base key).isSome then s.write setup key none delay candidate else s)
  | .other table partition candidate =>
    some { s with queue := enqueuePendingRow s.queue table partition candidate none }
  | .batch now limit held unprocessable =>
    let claimed := claim (fun row => decide (row.readyAt ≤ now) && !held row.table) s.queue limit
    some { s with
      rows := applyClaimed setup unprocessable s.rows claimed.1
      queue := claimed.2 }

/-- An empty table. -/
def initial : GsiState β γ τ := ⟨fun _ => none, [], []⟩

def isFor (key : β) (row : GsiPending β τ) : Bool := row.work.any fun work => work.key = key

/-- The writes of an item that wait in a queue. -/
def pendingOf (queue : List (GsiPending β τ)) (key : β) : List (GsiWork β) :=
  (queue.filter (isFor key)).filterMap (·.work)

/-- A write without delay does not overtake a waiting write of its item, and the worker can process
the rows of this index. -/
def NoOvertaking (s : GsiState β γ τ) : GsiEvent β τ → Prop
  | .put item delay _ =>
    effectiveDelay delay = 0 → pendingOf s.queue (setup.baseColumns item) = []
  | .delete key delay _ => effectiveDelay delay = 0 → pendingOf s.queue key = []
  | .other _ _ _ => True
  | .batch _ _ _ unprocessable => ∀ row ∈ s.queue, row.work.isSome → unprocessable row = false

end GsiState

end

/-! ## One item's rows -/

variable {setup : GsiSetup β γ} {key : β}

section

variable [DecidableEq β] [DecidableEq γ] [LinearOrder τ]

def ImageOf (setup : GsiSetup β γ) (key : β) (image : Option Item) : Prop :=
  ∀ item, image = some item → setup.baseColumns item = key

def rowsFor (rows : List (GsiRow β γ)) (key : β) : List (GsiRow β γ) :=
  rows.filter fun row => row.base = key

omit [DecidableEq γ] in
theorem rowsFor_deleteIndexRow_self (rows item) :
    rowsFor (deleteIndexRow setup rows item) (setup.baseColumns item) = [] := by
  rw [rowsFor, deleteIndexRow, filter_filter, filter_eq_nil_iff]
  intro row _
  simp

variable {item : Item}

omit [DecidableEq γ] in
theorem rowsFor_deleteIndexRow_ne (rows) (h : setup.baseColumns item ≠ key) :
    rowsFor (deleteIndexRow setup rows item) key = rowsFor rows key := by
  rw [rowsFor, deleteIndexRow, filter_filter]
  refine filter_congr fun row _ => ?_
  by_cases hrow : row.base = key
  · simp [hrow, h.symm]
  · simp [hrow]

theorem rowsFor_insertIndexRow_self (rows) (h : rowsFor rows (setup.baseColumns item) = []) :
    rowsFor (insertIndexRow setup rows item) (setup.baseColumns item) = [gsiRow setup item] := by
  have hnone : rowsFor (rows.filter fun row => ¬ (row.columns = setup.indexColumns item ∧
      row.base = setup.baseColumns item)) (setup.baseColumns item) = [] := by
    rw [rowsFor, filter_eq_nil_iff] at h ⊢
    exact fun row hrow => h row (mem_filter.mp hrow).1
  rw [rowsFor] at hnone
  rw [rowsFor, insertIndexRow, filter_append, hnone, nil_append,
    filter_cons_of_pos (by simp [gsiRow]), filter_nil]

theorem rowsFor_insertIndexRow_ne (rows) (h : setup.baseColumns item ≠ key) :
    rowsFor (insertIndexRow setup rows item) key = rowsFor rows key := by
  rw [rowsFor, insertIndexRow, filter_append, filter_filter, filter_cons_of_neg (by simp [gsiRow,
    h]), filter_nil, append_nil]
  refine filter_congr fun row _ => ?_
  by_cases hrow : row.base = key
  · simp [hrow, h.symm]
  · simp [hrow]

variable {rows : List (GsiRow β γ)}

theorem rowsFor_applyImages_self {old new} (hold : ImageOf setup key old)
    (hnew : ImageOf setup key new) (h : rowsFor rows key = gsiRowsOf setup old) :
    rowsFor (applyImages setup rows old new) key = gsiRowsOf setup new := by
  -- once the old image is out, the item has no row
  have hdeleted : rowsFor (match old with
      | some item =>
        if itemHasIndexKeys item setup.keySchema then deleteIndexRow setup rows item else rows
      | none => rows) key = [] := by
    cases old with
    | none => exact h
    | some item =>
      simp only [gsiRowsOf] at h ⊢
      split at h
      · rename_i hkeys
        rw [if_pos hkeys, ← hold item rfl]
        exact rowsFor_deleteIndexRow_self rows item
      · rename_i hkeys
        rw [if_neg hkeys]
        exact h
  cases new with
  | none => exact hdeleted
  | some item =>
    simp only [applyImages, gsiRowsOf]
    split
    · rw [← hnew item rfl] at hdeleted ⊢
      exact rowsFor_insertIndexRow_self _ hdeleted
    · exact hdeleted

theorem rowsFor_applyImages_ne {key' old new} (hold : ImageOf setup key' old)
    (hnew : ImageOf setup key' new) (hne : key' ≠ key) :
    rowsFor (applyImages setup rows old new) key = rowsFor rows key := by
  have hdeleted : rowsFor (match old with
      | some item =>
        if itemHasIndexKeys item setup.keySchema then deleteIndexRow setup rows item else rows
      | none => rows) key = rowsFor rows key := by
    cases old with
    | none => rfl
    | some item =>
      dsimp only
      split
      · exact rowsFor_deleteIndexRow_ne rows (by rw [hold item rfl]; exact hne)
      · rfl
  cases new with
  | none => exact hdeleted
  | some item =>
    simp only [applyImages]
    split
    · rw [rowsFor_insertIndexRow_ne _ (by rw [hnew item rfl]; exact hne)]
      exact hdeleted
    · exact hdeleted

end

/-! ## Runs -/

namespace GsiState

variable [DecidableEq β] [DecidableEq γ] [LinearOrder τ] {s s' : GsiState β γ τ}

structure WellKeyed (setup : GsiSetup β γ) (row : GsiPending β τ) (work : GsiWork β) : Prop where
  table : row.table = setup.tableId
  partition : row.partition = setup.partitionFor work.key
  old : ImageOf setup work.key work.old
  new : ImageOf setup work.key work.new

/-- The index shows some image of each item, and the waiting writes lead from it to the current
one. -/
structure Linked (setup : GsiSetup β γ) (s : GsiState β γ τ) : Prop where
  keyed : ∀ key, ImageOf setup key (s.base key)
  queued : ∀ row ∈ s.queue, ∀ work, row.work = some work → WellKeyed setup row work
  ready : s.queue.Pairwise fun a b => a.partition = b.partition → a.readyAt ≤ b.readyAt
  chained : ∀ key, ∃ image, ImageOf setup key image ∧
    rowsFor s.rows key = gsiRowsOf setup image ∧
    Links GsiWork.old GsiWork.new image (pendingOf s.queue key) (s.base key)

omit [DecidableEq γ] in
theorem linked_initial : Linked setup (initial : GsiState β γ τ) where
  keyed _ _ h := nomatch h
  queued _ h := nomatch h
  ready := List.Pairwise.nil
  chained _ := ⟨none, fun _ h => (nomatch h), rfl, rfl⟩

variable {row : GsiPending β τ}

omit [LinearOrder τ] in
theorem isFor_iff : isFor key row = true ↔ ∃ work, row.work = some work ∧ work.key = key := by
  simp [isFor, Option.any_eq_true]

omit [LinearOrder τ] in
theorem pendingOf_cons_of_isFor {work} (queue) (hwork : row.work = some work)
    (hkey : work.key = key) :
    pendingOf (row :: queue) key = work :: pendingOf queue key := by
  rw [pendingOf, filter_cons_of_pos (isFor_iff.mpr ⟨work, hwork, hkey⟩),
    filterMap_cons_some hwork, pendingOf]

omit [LinearOrder τ] in
theorem pendingOf_cons_of_not (queue) (h : ¬ isFor key row = true) :
    pendingOf (row :: queue) key = pendingOf queue key := by
  rw [pendingOf, filter_cons_of_neg h, pendingOf]

omit [DecidableEq γ] in
theorem pendingOf_enqueue (queue) (table partition) (candidate : τ) (work) (key : β) :
    pendingOf (enqueuePendingRow queue table partition candidate work) key =
      pendingOf queue key ++ work.toList.filter (fun work => work.key = key) := by
  rw [enqueuePendingRow, pendingOf, filter_append, filterMap_append, pendingOf]
  cases work with
  | none => rfl
  | some work => by_cases hkey : work.key = key <;> simp [isFor, hkey]

omit [DecidableEq β] in
theorem ready_enqueue {queue}
    (h : queue.Pairwise fun a b => a.partition = b.partition → a.readyAt ≤ b.readyAt)
    (table partition) (candidate : τ) (work : Option (GsiWork β)) :
    (enqueuePendingRow queue table partition candidate work).Pairwise
      fun a b => a.partition = b.partition → a.readyAt ≤ b.readyAt := by
  refine pairwise_append.mpr ⟨h, pairwise_singleton _ _, ?_⟩
  intro a ha b hb hpartition
  cases mem_singleton.mp hb
  have hmem : a.readyAt ∈ (queue.filter fun row => row.partition = partition).map (·.readyAt) :=
    mem_map_of_mem (mem_filter.mpr ⟨ha, decide_eq_true hpartition⟩)
  cases hmax : partMax queue partition with
  | none =>
    rw [partMax, max?_eq_none_iff] at hmax
    rw [hmax] at hmem
    cases hmem
  | some prev =>
    have hle : a.readyAt ≤ prev := (max?_eq_some_iff.mp hmax).2 a.readyAt hmem
    dsimp only
    split
    · exact hle
    · rename_i hlt
      exact hle.trans (not_lt.mp hlt)

omit [DecidableEq γ] in
theorem Linked.enqueue_other (h : Linked setup s) (table partition : ℕ) (candidate : τ) :
    Linked setup { s with queue := enqueuePendingRow s.queue table partition candidate none } where
  keyed := h.keyed
  queued row hrow work hwork := by
    rcases mem_append.mp hrow with hrow | hrow
    · exact h.queued row hrow work hwork
    · cases mem_singleton.mp hrow
      cases hwork
  ready := ready_enqueue h.ready _ _ _ _
  chained key := by
    obtain ⟨image, himage, hrows, hlinks⟩ := h.chained key
    refine ⟨image, himage, hrows, ?_⟩
    rw [pendingOf_enqueue, Option.toList_none, filter_nil, append_nil]
    exact hlinks

variable {new : Option Item}

omit [DecidableEq γ] [LinearOrder τ] in
theorem keyed_update (h : ∀ key, ImageOf setup key (s.base key)) (hnew : ImageOf setup key new) :
    ∀ key', ImageOf setup key' (update s.base key new key') := by
  intro key'
  by_cases heq : key' = key
  · subst heq
    rw [update_self]
    exact hnew
  · rw [update_of_ne heq]
    exact h key'

variable {delay : DelaySetting} {candidate : τ}

theorem Linked.write_sync (h : Linked setup s)
    (hnew : ImageOf setup key new) (hdelay : effectiveDelay delay = 0)
    (hpending : pendingOf s.queue key = []) :
    Linked setup (s.write setup key new delay candidate) := by
  rw [write, if_pos hdelay]
  refine ⟨keyed_update h.keyed hnew, h.queued, h.ready, fun key' => ?_⟩
  obtain ⟨image, himage, hrows, hlinks⟩ := h.chained key'
  dsimp only
  by_cases heq : key' = key
  · subst heq
    rw [hpending] at hlinks
    cases hlinks
    refine ⟨new, hnew, rowsFor_applyImages_self (h.keyed key') hnew hrows, ?_⟩
    rw [hpending, update_self]
    rfl
  · refine ⟨image, himage, ?_, ?_⟩
    · rw [syncIndexes, rowsFor_applyImages_ne (h.keyed key) hnew fun h => heq h.symm]
      exact hrows
    · rw [update_of_ne heq]
      exact hlinks

theorem Linked.write_queued (h : Linked setup s) (hnew : ImageOf setup key new)
    (hdelay : effectiveDelay delay ≠ 0) : Linked setup (s.write setup key new delay candidate) := by
  rw [write, if_neg hdelay]
  refine ⟨keyed_update h.keyed hnew, ?_, ready_enqueue h.ready _ _ _ _, fun key' => ?_⟩
  · intro row hrow work hwork
    rcases mem_append.mp hrow with hrow | hrow
    · exact h.queued row hrow work hwork
    · cases mem_singleton.mp hrow
      cases hwork
      exact ⟨rfl, rfl, h.keyed key, hnew⟩
  · obtain ⟨image, himage, hrows, hlinks⟩ := h.chained key'
    refine ⟨image, himage, hrows, ?_⟩
    dsimp only
    rw [pendingOf_enqueue, Option.toList_some]
    by_cases heq : key' = key
    · subst heq
      rw [filter_cons_of_pos (by simp), update_self]
      exact links_append.mpr ⟨s.base key', hlinks, rfl, rfl⟩
    · rw [filter_cons_of_neg (by simp [Ne.symm heq]), filter_nil, append_nil, update_of_ne heq]
      exact hlinks

theorem Linked.write (h : Linked setup s) (hnew : ImageOf setup key new)
    (hpending : effectiveDelay delay = 0 → pendingOf s.queue key = []) :
    Linked setup (s.write setup key new delay candidate) := by
  by_cases hdelay : effectiveDelay delay = 0
  · exact h.write_sync hnew hdelay (hpending hdelay)
  · exact h.write_queued hnew hdelay

variable {unprocessable : GsiPending β τ → Bool}

omit [LinearOrder τ] in
theorem rowsFor_applyClaimed {claimed rows image image'}
    (hqueued : ∀ row ∈ claimed, ∀ work, row.work = some work → WellKeyed setup row work)
    (happlied : ∀ row ∈ claimed, row.work.isSome → unprocessable row = false)
    (himage : ImageOf setup key image) (hrows : rowsFor rows key = gsiRowsOf setup image)
    (hlinks : Links GsiWork.old GsiWork.new image (pendingOf claimed key) image') :
    ImageOf setup key image' ∧
      rowsFor (applyClaimed setup unprocessable rows claimed) key = gsiRowsOf setup image' := by
  -- along the claimed rows, with the rows and the image of the item as they stand
  induction claimed generalizing rows image with
  | nil =>
    cases hlinks
    exact ⟨himage, hrows⟩
  | cons row claimed ih =>
    have hqueued' := fun r hr => hqueued r (mem_cons_of_mem row hr)
    have happlied' := fun r hr => happlied r (mem_cons_of_mem row hr)
    rw [applyClaimed, foldl_cons]
    cases hwork : row.work with
    | none =>
      rw [pendingOf_cons_of_not claimed fun hfor => ?_] at hlinks
      · exact ih hqueued' happlied' himage hrows hlinks
      · obtain ⟨work, hsome, -⟩ := isFor_iff.mp hfor
        rw [hwork] at hsome
        cases hsome
    | some work =>
      have hkeyed := hqueued row (.head _) work hwork
      have happly := happlied row (.head _) (by rw [hwork]; rfl)
      simp only [happly, Bool.false_eq_true, if_false]
      by_cases hkey : work.key = key
      · rw [pendingOf_cons_of_isFor claimed hwork hkey] at hlinks
        obtain ⟨hold, hlinks⟩ := hlinks
        have hnew := hkeyed.new
        rw [hkey] at hnew
        refine ih hqueued' happlied' hnew ?_ hlinks
        rw [← hold] at himage hrows
        exact rowsFor_applyImages_self himage hnew hrows
      · rw [pendingOf_cons_of_not claimed fun hfor => ?_] at hlinks
        · refine ih hqueued' happlied' himage ?_ hlinks
          rw [applyClaimedRow, rowsFor_applyImages_ne hkeyed.old hkeyed.new hkey]
          exact hrows
        obtain ⟨work', hwork', hkey'⟩ := isFor_iff.mp hfor
        rw [hwork] at hwork'
        cases hwork'
        exact hkey hkey'

omit [DecidableEq γ] in
theorem Linked.due_before (h : Linked setup s) (key now) (held : ℕ → Bool) :
    s.queue.Pairwise fun x y => isFor key x = true → isFor key y = true →
      (decide (y.readyAt ≤ now) && !held y.table) = true →
      (decide (x.readyAt ≤ now) && !held x.table) = true := by
  refine (List.Pairwise.and_mem.mp h.ready).imp ?_
  rintro x y ⟨hx, hy, hready⟩ hforx hfory hdue
  obtain ⟨work, hwork, hkey⟩ := isFor_iff.mp hforx
  obtain ⟨work', hwork', hkey'⟩ := isFor_iff.mp hfory
  have hxk := h.queued x hx work hwork
  have hyk := h.queued y hy work' hwork'
  have hle := hready (by rw [hxk.partition, hyk.partition, hkey, hkey'])
  obtain ⟨hnow, hheld⟩ := Bool.and_eq_true_iff.mp hdue
  rw [hyk.table, ← hxk.table] at hheld
  exact Bool.and_eq_true_iff.mpr ⟨decide_eq_true (hle.trans (decide_eq_true_eq.mp hnow)), hheld⟩

theorem Linked.batch (h : Linked setup s) {now limit held}
    (happlied : ∀ row ∈ s.queue, row.work.isSome → unprocessable row = false)
    (hstep : s.step setup (.batch now limit held unprocessable) = some s') : Linked setup s' := by
  cases hstep
  obtain ⟨hclaimed, hstays⟩ := claim_sublist
    (fun row : GsiPending β τ => decide (row.readyAt ≤ now) && !held row.table) s.queue limit
  refine ⟨h.keyed, fun row hrow => h.queued row (hstays.subset hrow), h.ready.sublist hstays,
    fun key => ?_⟩
  obtain ⟨image, himage, hrows, hlinks⟩ := h.chained key
  rw [pendingOf, claim_filter (isFor key) (h.due_before key now held) limit,
    filterMap_append] at hlinks
  obtain ⟨image', hfirst, hrest⟩ := links_append.mp hlinks
  obtain ⟨himage', hrows'⟩ := rowsFor_applyClaimed
    (fun row hrow => h.queued row (hclaimed.subset hrow))
    (fun row hrow => happlied row (hclaimed.subset hrow)) himage hrows hfirst
  exact ⟨image', himage', hrows', hrest⟩

theorem Linked.step {e} (h : Linked setup s) (hguard : NoOvertaking setup s e)
    (hstep : s.step setup e = some s') : Linked setup s' := by
  cases e with
  | put item delay candidate =>
    cases hstep
    exact h.write (fun item' heq => by cases heq; rfl) hguard
  | delete key delay candidate =>
    cases hstep
    split
    · exact h.write (fun _ hnone => nomatch hnone) hguard
    · exact h
  | other table partition candidate =>
    cases hstep
    exact h.enqueue_other table partition candidate
  | batch now limit held unprocessable => exact h.batch hguard hstep

/-- While no write without delay overtakes a waiting write of its item, the index has, once the
queue has no row for it, the row of each current item that has its keys, and no other. -/
theorem gsi_converges (setup : GsiSetup β γ) (s : GsiState β γ τ)
    (hrun : EventRun.Reaches (step setup) (NoOvertaking setup) initial s)
    (hdrained : ∀ row ∈ s.queue, row.work = none) :
    (∀ key, rowsFor s.rows key = gsiRowsOf setup (s.base key)) ∧
    ∀ row ∈ s.rows, ∃ item, s.base row.base = some item ∧
      itemHasIndexKeys item setup.keySchema = true ∧ row = gsiRow setup item := by
  have h : Linked setup s :=
    hrun.keeps (fun _ _ _ hguard hstep hs => hs.step hguard hstep) linked_initial
  have hrows : ∀ key, rowsFor s.rows key = gsiRowsOf setup (s.base key) := by
    intro key
    obtain ⟨image, -, hrows, hlinks⟩ := h.chained key
    have hnone : pendingOf s.queue key = [] := by
      rw [pendingOf, filterMap_eq_nil_iff]
      exact fun row hrow => hdrained row (mem_filter.mp hrow).1
    rw [hnone] at hlinks
    cases hlinks
    exact hrows
  refine ⟨hrows, fun row hrow => ?_⟩
  have hmem : row ∈ rowsFor s.rows row.base :=
    mem_filter.mpr ⟨hrow, decide_eq_true rfl⟩
  rw [hrows row.base] at hmem
  cases hbase : s.base row.base with
  | none =>
    rw [hbase] at hmem
    cases hmem
  | some item =>
    rw [hbase, gsiRowsOf] at hmem
    split at hmem
    · exact ⟨item, rfl, ‹_›, mem_singleton.mp hmem⟩
    · cases hmem

/-! ## Two writes of one item -/

def onG : GsiSetup (Option AttributeValue) (Option AttributeValue) where
  tableId := 1
  baseKeySchema := [⟨"id", .hash⟩]
  keySchema := [⟨"g", .hash⟩]
  projection := ⟨.all, none⟩
  baseColumns item := OrdMap.get? item "id"
  indexColumns item := OrdMap.get? item "g"
  partitionFor _ := 0

def itemG (v : String) : Item := [("g", .s "x"), ("id", .s "1"), ("v", .s v)]

def delayed : DelaySetting := ⟨none, 5⟩

def undelayed : DelaySetting := ⟨some 0, 5⟩

theorem gsi_converges_after_batch :
    ∃ s : GsiState (Option AttributeValue) (Option AttributeValue) ℕ,
      s.base (some (.s "1")) = some (itemG "3") ∧
      (∀ key, rowsFor s.rows key = gsiRowsOf onG (s.base key)) ∧
      ∀ row ∈ s.rows, ∃ item, s.base row.base = some item ∧
        itemHasIndexKeys item onG.keySchema = true ∧ row = gsiRow onG item := by
  -- two delayed writes, a batch of both, then a write without delay
  have hadmits : EventRun.Admits (step onG) (NoOvertaking onG)
      (initial : GsiState (Option AttributeValue) (Option AttributeValue) ℕ)
      [.put (itemG "1") delayed 9, .put (itemG "2") delayed 7,
        .batch 9 10 (fun _ => false) fun _ => false, .put (itemG "3") undelayed 9] :=
    .cons (fun h => absurd h (by decide)) rfl (.cons (fun h => absurd h (by decide)) rfl
      (.cons (fun _ _ _ => rfl) rfl (.cons (fun _ => rfl) rfl trivial)))
  exact ⟨_, rfl, gsi_converges onG _ (.of_admits hadmits rfl)
    fun row hrow => nomatch (show row ∈ [] from hrow)⟩

/-- A delayed write waits while the delay goes to zero and the item is written again; the worker then
puts the older image over the newer one. -/
theorem gsi_stale_image : ∃ s : GsiState (Option AttributeValue) (Option AttributeValue) ℕ,
      EventRun.Reaches (step onG) EventRun.Anything initial s ∧ s.queue = [] ∧
      s.base (some (.s "1")) = some (itemG "2") ∧ s.rows = [gsiRow onG (itemG "1")] ∧
      gsiRow onG (itemG "1") ≠ gsiRow onG (itemG "2") :=
  ⟨_, EventRun.Reaches.of_run [.put (itemG "1") delayed 9, .put (itemG "2") undelayed 9,
    .batch 9 10 (fun _ => false) fun _ => false] rfl, rfl, rfl, rfl, by decide⟩

end GsiState

end ExtendDb.Sqlite
