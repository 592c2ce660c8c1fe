import ExtendDb.Theory.EventRun
import ExtendDb.Theory.NumberedLog

/-!
# The stream records of PostgreSQL writes

A write stores its record in `stream_pending` inside its own transaction, with no number.  A
numbering transaction, started by a read of the shard or by the worker, locks the shard's row and
moves a batch of the committed records to `stream_records` under new sequence numbers.  This is one
shard, with any number of writing transactions, one numbering transaction at a time and any number
of readers.
-/

namespace ExtendDb.Postgres

open NumberedLog List Function Option

/-! ## The batch of a numbering transaction -/

/-- A row of `stream_pending`: its `id`, the transaction and the item of the write, and
`record_bytes`. -/
structure PendingRow where
  id : ℕ
  tx : ℕ
  item : ℕ
  recordBytes : ℕ
deriving DecidableEq, Repr

/-- A row of `stream_records`.  The number is stored as 21 digits, so the texts are in the order of
the numbers. -/
structure StreamRow where
  record : PendingRow
  sequenceNumber : ℕ
deriving DecidableEq, Repr

/-- `sized` of `NUMBER_PENDING`: each row with the bytes of the rows before it. -/
def sized : ℕ → List PendingRow → List (PendingRow × ℕ)
  | _, [] => []
  | before, p :: rest => (p, before) :: sized (before + p.recordBytes) rest

/-- `batch` of `NUMBER_PENDING`: of the `limit` rows with the lowest ids, those with fewer than
`bytes` bytes before them. -/
def numberingBatch (committed : List PendingRow) (limit bytes : ℕ) : List PendingRow :=
  ((sized 0 (page PendingRow.id committed none limit)).filter (fun p => p.2 < bytes)).map Prod.fst

/-- `inserted` of `NUMBER_PENDING`: the drawn values are sorted and given out in `id` order. -/
def insertedRows (batch : List PendingRow) (values : List ℕ) : List StreamRow :=
  zipWith StreamRow.mk batch (values.insertionSort (· ≤ ·))

/-- The first row has the lower number, and for one item also the lower id. -/
structure StreamRow.Precedes (x y : StreamRow) : Prop where
  number : x.sequenceNumber < y.sequenceNumber
  id_ne : x.record.id ≠ y.record.id
  id_lt : x.record.item = y.record.item → x.record.id < y.record.id

theorem le_of_mem_sized {before : ℕ} {rows : List PendingRow} {p : PendingRow × ℕ}
    (h : p ∈ sized before rows) : before ≤ p.2 := by
  induction rows generalizing before with
  | nil => cases h
  | cons row rest ih =>
    rcases mem_cons.mp h with rfl | h
    · exact le_refl _
    · have := ih h
      omega

theorem sized_filter_isPrefix (bytes before : ℕ) (rows : List PendingRow) :
    ((sized before rows).filter (fun p => p.2 < bytes)).map Prod.fst <+: rows := by
  induction rows generalizing before with
  | nil => exact nil_prefix
  | cons row rest ih =>
    by_cases hbefore : before < bytes
    · rw [sized, filter_cons, if_pos (decide_eq_true hbefore), map_cons]
      exact cons_prefix_cons.mpr ⟨rfl, ih _⟩
    · have hnone : (sized before (row :: rest)).filter (fun p => p.2 < bytes) = [] := by
        refine filter_eq_nil_iff.mpr fun p hp hlt => hbefore ?_
        exact lt_of_le_of_lt (le_of_mem_sized hp) (decide_eq_true_eq.mp hlt)
      rw [hnone]
      exact nil_prefix

section Batch

variable {committed : List PendingRow} {limit bytes : ℕ}

theorem numberingBatch_isPrefix (committed : List PendingRow) (limit bytes : ℕ) :
    numberingBatch committed limit bytes <+: rowsAbove PendingRow.id committed none :=
  (sized_filter_isPrefix bytes 0 _).trans (List.take_prefix _ _)

theorem mem_of_mem_numberingBatch {p : PendingRow}
    (h : p ∈ numberingBatch committed limit bytes) : p ∈ committed :=
  (mem_rowsAbove.mp ((numberingBatch_isPrefix _ _ _).subset h)).1

theorem numberingBatch_ascending (hdistinct : Distinct PendingRow.id committed) :
    (numberingBatch committed limit bytes).Pairwise (fun a b => a.id < b.id) :=
  (sorted_above hdistinct none).sublist (numberingBatch_isPrefix _ _ _).sublist

theorem lt_of_not_mem_numberingBatch (hdistinct : Distinct PendingRow.id committed)
    {p : PendingRow} (hp : p ∈ committed) (hnot : p ∉ numberingBatch committed limit bytes) :
    ∀ q ∈ numberingBatch committed limit bytes, q.id < p.id := by
  intro q hq
  obtain ⟨rest, hrest⟩ := numberingBatch_isPrefix committed limit bytes
  have hmem : p ∈ rowsAbove PendingRow.id committed none :=
    mem_rowsAbove.mpr ⟨hp, fun _ h => nomatch h⟩
  have hsorted := sorted_above hdistinct none
  rw [← hrest] at hmem hsorted
  exact (pairwise_append.mp hsorted).2.2 q hq p ((mem_append.mp hmem).resolve_left hnot)

theorem numberingBatch_ne_nil (hlimit : 1 ≤ limit) (hbytes : 1 ≤ bytes) {p : PendingRow}
    (hp : p ∈ committed) : numberingBatch committed limit bytes ≠ [] := by
  have hmem : p ∈ rowsAbove PendingRow.id committed none :=
    mem_rowsAbove.mpr ⟨hp, fun _ h => nomatch h⟩
  unfold numberingBatch page
  obtain ⟨limit, rfl⟩ := Nat.exists_eq_add_of_le' hlimit
  cases hrows : rowsAbove PendingRow.id committed none with
  | nil =>
    rw [hrows] at hmem
    cases hmem
  | cons first rest =>
    have hfirst : decide (0 < bytes) = true := decide_eq_true hbytes
    rw [take_succ_cons, sized, filter_cons, if_pos hfirst, map_cons]
    exact cons_ne_nil _ _

theorem exists_mem_numberingBatch_le (hdistinct : Distinct PendingRow.id committed)
    (hlimit : 1 ≤ limit) (hbytes : 1 ≤ bytes) {p : PendingRow} (hp : p ∈ committed) :
    ∃ q ∈ numberingBatch committed limit bytes, q.id ≤ p.id := by
  by_cases hin : p ∈ numberingBatch committed limit bytes
  · exact ⟨p, hin, le_refl _⟩
  · obtain ⟨q, hq⟩ := exists_mem_of_ne_nil _ (numberingBatch_ne_nil hlimit hbytes hp)
    exact ⟨q, hq, le_of_lt (lt_of_not_mem_numberingBatch hdistinct hp hin q hq)⟩

end Batch

theorem map_record_zipWith {batch : List PendingRow} {values : List ℕ}
    (h : values.length = batch.length) :
    (zipWith StreamRow.mk batch values).map StreamRow.record = batch := by
  induction batch generalizing values with
  | nil => rfl
  | cons p batch ih =>
    cases values with
    | nil => cases h
    | cons v values => rw [zipWith_cons_cons, map_cons, ih (Nat.succ.inj h)]

theorem mem_zipWith_mk {batch : List PendingRow} {values : List ℕ} {x : StreamRow}
    (h : x ∈ zipWith StreamRow.mk batch values) :
    x.record ∈ batch ∧ x.sequenceNumber ∈ values := by
  induction batch generalizing values with
  | nil => cases h
  | cons p batch ih =>
    cases values with
    | nil => cases h
    | cons v values =>
      rcases mem_cons.mp h with rfl | h
      · exact ⟨mem_cons_self, mem_cons_self⟩
      · exact ⟨mem_cons_of_mem _ (ih h).1, mem_cons_of_mem _ (ih h).2⟩

theorem zipWith_precedes {batch : List PendingRow} {values : List ℕ}
    (hbatch : batch.Pairwise (fun a b => a.id < b.id)) (hvalues : values.Pairwise (· < ·)) :
    (zipWith StreamRow.mk batch values).Pairwise StreamRow.Precedes := by
  induction batch generalizing values with
  | nil => exact List.Pairwise.nil
  | cons p batch ih =>
    cases values with
    | nil => exact List.Pairwise.nil
    | cons v values =>
      obtain ⟨hfirst, hrest⟩ := pairwise_cons.mp hbatch
      obtain ⟨hlow, hhigh⟩ := pairwise_cons.mp hvalues
      refine pairwise_cons.mpr ⟨fun y hy => ?_, ih hrest hhigh⟩
      obtain ⟨hrecord, hnumber⟩ := mem_zipWith_mk hy
      have hid := hfirst _ hrecord
      exact ⟨hlow _ hnumber, Nat.ne_of_lt hid, fun _ => hid⟩

section Inserted

variable {batch : List PendingRow} {values : List ℕ}

theorem map_record_insertedRows (h : values.length = batch.length) :
    (insertedRows batch values).map StreamRow.record = batch :=
  map_record_zipWith (by rw [length_insertionSort, h])

theorem mem_insertedRows {x : StreamRow} (h : x ∈ insertedRows batch values) :
    x.record ∈ batch ∧ x.sequenceNumber ∈ values := by
  obtain ⟨hrecord, hnumber⟩ := mem_zipWith_mk h
  exact ⟨hrecord, (mem_insertionSort _).mp hnumber⟩

theorem insertedRows_precedes (hbatch : batch.Pairwise (fun a b => a.id < b.id))
    (hvalues : values.Nodup) : (insertedRows batch values).Pairwise StreamRow.Precedes := by
  refine zipWith_precedes hbatch ?_
  have hsorted := pairwise_insertionSort (· ≤ ·) values
  have hnodup : (values.insertionSort (· ≤ ·)).Nodup :=
    (perm_insertionSort _ _).nodup_iff.mpr hvalues
  exact (hsorted.and hnodup).imp fun h => lt_of_le_of_ne h.1 h.2

end Inserted

/-! ## A shard -/

/-- Where a writing transaction is. -/
inductive WriteTx where
  | active
  | committed
  | aborted
deriving DecidableEq, Repr

/-- The numbering transaction that holds the shard's row, of a reader or of the worker; the batch it
has moved is seen by the others when it commits. -/
inductive Numbering where
  | free
  | locked (owner : Option ℕ)
  | numbered (owner : Option ℕ) (batch : List StreamRow)
deriving DecidableEq, Repr

def Numbering.batch : Numbering → List StreamRow
  | .numbered _ batch => batch
  | _ => []

/-- Where a `GetRecords` is: before `number_before_read`, in its numbering transaction, after it, or
after it failed or gave up waiting. -/
inductive Poll where
  | idle
  | numbering
  | ready
  | unnumbered
deriving DecidableEq, Repr

/-- The writing transactions and who holds each item's row, the pending rows (newest first), the
numbering, the numbered rows (newest first) and the readers.  `history` lists the ids of an item's
committed writes, newest first.  `numberings` counts the committed numberings, `polls` the reads of
a reader, and `served` those whose `number_before_read` neither failed nor gave up. -/
structure ShardStream where
  txs : ℕ → WriteTx
  itemLocks : ℕ → Option ℕ
  lastId : ℕ
  pending : List PendingRow
  history : ℕ → List ℕ
  lastNumber : ℕ
  numbering : Numbering
  log : List StreamRow
  phases : ℕ → Poll
  readers : ℕ → Reader StreamRow ℕ
  polls : ℕ → ℕ
  served : ℕ → ℕ
  numberings : ℕ

inductive ShardStreamEvent where
  /-- A transaction gets the item's row lock. -/
  | locksItem (t k : ℕ)
  /-- `write_stream_record_in_tx`; the id is above those drawn before. -/
  | stores (t k id bytes : ℕ)
  | commits (t : ℕ)
  | aborts (t : ℕ)
  /-- `LOCK_SHARD` of the worker. -/
  | workerLocks
  /-- `LOCK_SHARD` of a reader. -/
  | readerLocks (reader : ℕ)
  /-- `NUMBER_PENDING`, with the values it draws and where it leaves the sequence. -/
  | numbers (limit bytes : ℕ) (values : List ℕ) (last : ℕ)
  | commitsNumbering
  | failsNumbering
  /-- `number_before_read` finds nothing pending. -/
  | findsNothing (reader : ℕ)
  /-- `number_before_read` fails, or waits longer than `NUMBER_WAIT`. -/
  | givesUp (reader : ℕ)
  /-- The page of `get_stream_records`. -/
  | reads (reader limit : ℕ)
deriving DecidableEq, Repr

namespace ShardStream

/-- Nothing written, every reader at TRIM_HORIZON. -/
def initial : ShardStream where
  txs := fun _ => .active
  itemLocks := fun _ => none
  lastId := 0
  pending := []
  history := fun _ => []
  lastNumber := 0
  numbering := .free
  log := []
  phases := fun _ => .idle
  readers := fun _ => .fresh
  polls := fun _ => 0
  served := fun _ => 0
  numberings := 0

section

variable (s : ShardStream)

/-- The pending rows a statement sees. -/
def committedRows : List PendingRow :=
  s.pending.filter (fun p => s.txs p.tx = .committed)

def lockItem (t k : ℕ) : ShardStream :=
  { s with itemLocks := update s.itemLocks k (some t) }

def store (p : PendingRow) : ShardStream :=
  { s with lastId := p.id, pending := p :: s.pending }

/-- The item locks when a transaction has ended. -/
def locksWithout (t k : ℕ) : Option ℕ :=
  if s.itemLocks k = some t then none else s.itemLocks k

def commit (t : ℕ) : ShardStream :=
  { s with
    txs := update s.txs t .committed
    itemLocks := s.locksWithout t
    history := fun k =>
      (s.pending.filter (fun p => p.tx = t ∧ p.item = k)).map PendingRow.id ++ s.history k }

def abort (t : ℕ) : ShardStream :=
  { s with
    txs := update s.txs t .aborted
    itemLocks := s.locksWithout t
    pending := s.pending.filter (fun p => p.tx ≠ t) }

/-- The numbering transaction has moved a batch. -/
def number (owner : Option ℕ) (batch : List StreamRow) (last : ℕ) : ShardStream :=
  { s with numbering := .numbered owner batch, lastNumber := last }

/-- The numbering transaction commits. -/
def move (batch : List StreamRow) : ShardStream :=
  { s with
    log := batch.reverse ++ s.log
    pending := s.pending.filter (fun p => ∀ x ∈ batch, x.record.id ≠ p.id)
    numberings := s.numberings + 1 }

/-- The phases when the owner of a numbering transaction has ended it. -/
def phasesAfter (owner : Option ℕ) (phase : Poll) : ℕ → Poll :=
  match owner with
  | none => s.phases
  | some reader => update s.phases reader phase

def turn (numbering : Numbering) (phases : ℕ → Poll) : ShardStream :=
  { s with numbering := numbering, phases := phases }

def read (reader limit : ℕ) : ShardStream :=
  { s with
    phases := update s.phases reader .idle
    readers := update s.readers reader
      ((s.readers reader).poll StreamRow.sequenceNumber s.log limit)
    polls := update s.polls reader (s.polls reader + 1)
    served := update s.served reader
      (s.served reader + if s.phases reader = .ready then 1 else 0) }

/-- The guard of `numbers`: limits that take something, and values the sequence has not given out. -/
def Draws (limit bytes : ℕ) (values : List ℕ) (last : ℕ) : Prop :=
  1 ≤ limit ∧ 1 ≤ bytes ∧
    values.length = (numberingBatch s.committedRows limit bytes).length ∧ values.Nodup ∧
    s.lastNumber ≤ last ∧ ∀ v ∈ values, s.lastNumber < v ∧ v ≤ last

instance (limit bytes : ℕ) (values : List ℕ) (last : ℕ) :
    Decidable (s.Draws limit bytes values last) :=
  inferInstanceAs (Decidable (_ ∧ _))

def step : ShardStreamEvent → Option ShardStream
  | .locksItem t k =>
    if s.txs t = .active ∧ s.itemLocks k = none then some (s.lockItem t k) else none
  | .stores t k id bytes =>
    if s.txs t = .active ∧ s.itemLocks k = some t ∧ s.lastId < id then
      some (s.store ⟨id, t, k, bytes⟩)
    else none
  | .commits t => if s.txs t = .active then some (s.commit t) else none
  | .aborts t => if s.txs t = .active then some (s.abort t) else none
  | .workerLocks => if s.numbering = .free then some (s.turn (.locked none) s.phases) else none
  | .readerLocks reader =>
    -- SKIP LOCKED: while the row is held, the reader looks again after a pause
    if s.numbering = .free ∧ s.phases reader = .idle then
      some (s.turn (.locked (some reader)) (update s.phases reader .numbering))
    else none
  | .numbers limit bytes values last =>
    match s.numbering with
    | .locked owner =>
      if s.Draws limit bytes values last then
        some (s.number owner
          (insertedRows (numberingBatch s.committedRows limit bytes) values) last)
      else none
    | _ => none
  | .commitsNumbering =>
    match s.numbering with
    | .numbered owner batch => some ((s.move batch).turn .free (s.phasesAfter owner .ready))
    | _ => none
  | .failsNumbering =>
    match s.numbering with
    | .free => none
    | .locked owner => some (s.turn .free (s.phasesAfter owner .unnumbered))
    | .numbered owner _ => some (s.turn .free (s.phasesAfter owner .unnumbered))
  | .findsNothing reader =>
    if s.phases reader = .idle ∧ s.committedRows = [] then
      some (s.turn s.numbering (update s.phases reader .ready))
    else none
  | .givesUp reader =>
    if s.phases reader = .idle then
      some (s.turn s.numbering (update s.phases reader .unnumbered))
    else none
  | .reads reader limit =>
    if 1 ≤ limit ∧ (s.phases reader = .ready ∨ s.phases reader = .unnumbered) then
      some (s.read reader limit)
    else none

end

/-! ## What a step does -/

inductive Moves (s : ShardStream) : ShardStream → Prop where
  | locksItem {t k : ℕ} (hactive : s.txs t = .active) (hfree : s.itemLocks k = none) :
      Moves s (s.lockItem t k)
  | stores (p : PendingRow) (hactive : s.txs p.tx = .active)
      (hlock : s.itemLocks p.item = some p.tx) (hid : s.lastId < p.id) : Moves s (s.store p)
  | commits {t : ℕ} (hactive : s.txs t = .active) : Moves s (s.commit t)
  | aborts {t : ℕ} (hactive : s.txs t = .active) : Moves s (s.abort t)
  | turns {numbering : Numbering} {phases : ℕ → Poll}
      (hbatch : numbering = s.numbering ∨ numbering = .free ∨ ∃ owner, numbering = .locked owner)
      (hready : ∀ r, phases r = .ready → s.phases r = .ready ∨ s.committedRows = []) :
      Moves s (s.turn numbering phases)
  | numbers {owner : Option ℕ} {limit bytes last : ℕ} {values : List ℕ}
      (hlocked : s.numbering = .locked owner) (hdraws : s.Draws limit bytes values last) :
      Moves s (s.number owner
        (insertedRows (numberingBatch s.committedRows limit bytes) values) last)
  | moves {owner : Option ℕ} {batch : List StreamRow}
      (hnumbered : s.numbering = .numbered owner batch) :
      Moves s ((s.move batch).turn .free (s.phasesAfter owner .ready))
  | reads (reader : ℕ) {limit : ℕ} (hlimit : 1 ≤ limit) : Moves s (s.read reader limit)

variable {s s' : ShardStream}

/-- A phase other than `ready` given to one reader makes no other reader ready. -/
theorem ready_of_update {reader r : ℕ} {phase : Poll} (hphase : phase ≠ .ready)
    (h : update s.phases reader phase r = .ready) : s.phases r = .ready := by
  by_cases hr : r = reader
  · subst hr
    rw [update_self] at h
    exact absurd h hphase
  · rwa [update_of_ne hr] at h

theorem ready_of_phasesAfter {owner : Option ℕ} {r : ℕ}
    (h : s.phasesAfter owner .unnumbered r = .ready) : s.phases r = .ready := by
  cases owner with
  | none => exact h
  | some reader => exact ready_of_update (by decide) h

theorem moves_of_step {e : ShardStreamEvent} (h : s.step e = some s') : Moves s s' := by
  cases e with
  | locksItem t k =>
    obtain ⟨⟨hactive, hfree⟩, heq⟩ := ite_none_right_eq_some.mp h
    cases heq
    exact .locksItem hactive hfree
  | stores t k id bytes =>
    obtain ⟨⟨hactive, hlock, hid⟩, heq⟩ := ite_none_right_eq_some.mp h
    cases heq
    exact .stores ⟨id, t, k, bytes⟩ hactive hlock hid
  | commits t =>
    obtain ⟨hactive, heq⟩ := ite_none_right_eq_some.mp h
    cases heq
    exact .commits hactive
  | aborts t =>
    obtain ⟨hactive, heq⟩ := ite_none_right_eq_some.mp h
    cases heq
    exact .aborts hactive
  | workerLocks =>
    obtain ⟨-, heq⟩ := ite_none_right_eq_some.mp h
    cases heq
    exact .turns (.inr (.inr ⟨_, rfl⟩)) fun r hr => .inl hr
  | readerLocks reader =>
    obtain ⟨-, heq⟩ := ite_none_right_eq_some.mp h
    cases heq
    exact .turns (.inr (.inr ⟨_, rfl⟩)) fun r hr => .inl (ready_of_update (by decide) hr)
  | numbers limit bytes values last =>
    simp only [step] at h
    split at h
    · rename_i owner hlocked
      obtain ⟨hdraws, heq⟩ := ite_none_right_eq_some.mp h
      cases heq
      exact .numbers hlocked hdraws
    · cases h
  | commitsNumbering =>
    simp only [step] at h
    split at h
    · rename_i owner batch hnumbered
      cases h
      exact .moves hnumbered
    · cases h
  | failsNumbering =>
    simp only [step] at h
    split at h
    · cases h
    · cases h
      exact .turns (.inr (.inl rfl)) fun r hr => .inl (ready_of_phasesAfter hr)
    · cases h
      exact .turns (.inr (.inl rfl)) fun r hr => .inl (ready_of_phasesAfter hr)
  | findsNothing reader =>
    obtain ⟨⟨-, hnothing⟩, heq⟩ := ite_none_right_eq_some.mp h
    cases heq
    exact .turns (.inl rfl) fun r _ => .inr hnothing
  | givesUp reader =>
    obtain ⟨-, heq⟩ := ite_none_right_eq_some.mp h
    cases heq
    exact .turns (.inl rfl) fun r hr => .inl (ready_of_update (by decide) hr)
  | reads reader limit =>
    obtain ⟨⟨hlimit, -⟩, heq⟩ := ite_none_right_eq_some.mp h
    cases heq
    exact .reads reader hlimit

end ShardStream

end ExtendDb.Postgres
