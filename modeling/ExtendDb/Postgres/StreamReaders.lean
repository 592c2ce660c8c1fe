import ExtendDb.Postgres.StreamNumbering
import Mathlib.Data.List.Sublists

/-!
# Readers of a PostgreSQL stream shard

The numbers of a shard grow in the order in which they become visible, whatever the writing
transactions, the numbering transactions and the readers do in between.  So no reader passes a
record, and the records of an item come in the order of its writes.
-/

namespace ExtendDb.Postgres

open NumberedLog List Function

namespace ShardStream

variable {s s' : ShardStream} {p : PendingRow}

/-! ## The writes of an item one after another -/

/-- The record of a committed write. -/
def Settled (s : ShardStream) (p : PendingRow) : Prop :=
  s.txs p.tx = .committed ∧ p.id ∈ s.history p.item

/-- The record of a write whose transaction still holds the item's row. -/
structure Held (s : ShardStream) (p : PendingRow) : Prop where
  active : s.txs p.tx = .active
  lock : s.itemLocks p.item = some p.tx
  later : ∀ id ∈ s.history p.item, id < p.id

structure Serial (s : ShardStream) : Prop where
  lockers : ∀ k t, s.itemLocks k = some t → s.txs t = .active
  rows : ∀ p ∈ s.pending, s.Settled p ∨ s.Held p
  ids : s.pending.Pairwise (fun later earlier => earlier.id < later.id)
  fresh : ∀ p ∈ s.pending, p.id ≤ s.lastId
  history : ∀ k, (s.history k).Pairwise (fun later earlier => earlier < later)
  known : ∀ k, ∀ id ∈ s.history k, id ≤ s.lastId

theorem serial_initial : Serial initial where
  lockers _ _ h := nomatch h
  rows _ h := nomatch h
  ids := List.Pairwise.nil
  fresh _ h := nomatch h
  history _ := List.Pairwise.nil
  known _ _ h := nomatch h

theorem Serial.held (h : s.Serial) (hp : p ∈ s.pending) (hactive : s.txs p.tx = .active) :
    s.Held p := by
  refine (h.rows p hp).resolve_left fun hsettled => ?_
  rw [hsettled.1] at hactive
  cases hactive

theorem Serial.settled (h : s.Serial) (hp : p ∈ s.pending) (hcommitted : s.txs p.tx = .committed) :
    s.Settled p := by
  refine (h.rows p hp).resolve_right fun hheld => ?_
  rw [hheld.active] at hcommitted
  cases hcommitted

theorem Serial.eq_of_id_eq (h : s.Serial) {q : PendingRow} (hp : p ∈ s.pending)
    (hq : q ∈ s.pending) (hid : p.id = q.id) : p = q := by
  have hdistinct : Distinct PendingRow.id s.pending := h.ids.imp fun hlt => (Nat.ne_of_lt hlt).symm
  exact hdistinct.eq_of_seq_eq hp hq hid

theorem Serial.distinct_committedRows (h : s.Serial) : Distinct PendingRow.id s.committedRows :=
  (h.ids.imp fun hlt => (Nat.ne_of_lt hlt).symm).filter _

theorem mem_committedRows : p ∈ s.committedRows ↔ p ∈ s.pending ∧ s.txs p.tx = .committed := by
  rw [committedRows, mem_filter, decide_eq_true_eq]

theorem tx_ne_of_committed {t : ℕ} (hp : s.txs p.tx = .committed) (hactive : s.txs t = .active) :
    p.tx ≠ t := by
  rintro rfl
  rw [hp] at hactive
  cases hactive

theorem locksWithout_of_ne {t k : ℕ} (h : s.itemLocks k ≠ some t) :
    s.locksWithout t k = s.itemLocks k :=
  if_neg h

theorem of_locksWithout {t k t' : ℕ} (h : s.locksWithout t k = some t') :
    s.itemLocks k = some t' ∧ t' ≠ t := by
  unfold locksWithout at h
  split at h
  · cases h
  · rename_i hne
    exact ⟨h, fun heq => hne (heq ▸ h)⟩

theorem Held.lock_ne (h : s.Held p) {t : ℕ} (ht : p.tx ≠ t) : s.itemLocks p.item ≠ some t := by
  rw [h.lock]
  exact fun heq => ht (Option.some.inj heq)

theorem Serial.store (h : s.Serial) (hactive : s.txs p.tx = .active)
    (hlock : s.itemLocks p.item = some p.tx) (hid : s.lastId < p.id) : (s.store p).Serial where
  lockers := h.lockers
  rows q hq := by
    rcases mem_cons.mp hq with rfl | hq
    · exact Or.inr ⟨hactive, hlock, fun id hmem => lt_of_le_of_lt (h.known _ id hmem) hid⟩
    · exact (h.rows q hq).imp id fun hheld => ⟨hheld.active, hheld.lock, hheld.later⟩
  ids := pairwise_cons.mpr ⟨fun q hq => lt_of_le_of_lt (h.fresh q hq) hid, h.ids⟩
  fresh q hq := by
    rcases mem_cons.mp hq with rfl | hq
    · exact le_refl _
    · exact le_of_lt (lt_of_le_of_lt (h.fresh q hq) hid)
  history := h.history
  known k id hmem := le_of_lt (lt_of_le_of_lt (h.known k id hmem) hid)

theorem mem_committed_ids {t k id : ℕ}
    (h : id ∈ (s.pending.filter (fun p => p.tx = t ∧ p.item = k)).map PendingRow.id) :
    ∃ p ∈ s.pending, p.tx = t ∧ p.item = k ∧ p.id = id := by
  obtain ⟨p, hp, rfl⟩ := mem_map.mp h
  obtain ⟨hp, hof⟩ := mem_filter.mp hp
  exact ⟨p, hp, (decide_eq_true_eq.mp hof).1, (decide_eq_true_eq.mp hof).2, rfl⟩

theorem Serial.commit (h : s.Serial) {t : ℕ} (hactive : s.txs t = .active) :
    (s.commit t).Serial := by
  refine ⟨?_, ?_, h.ids, h.fresh, ?_, ?_⟩
  · intro k t' hlock
    obtain ⟨hlock, hne⟩ := of_locksWithout hlock
    exact (update_of_ne hne _ _).trans (h.lockers k t' hlock)
  · intro p hp
    rcases h.rows p hp with hsettled | hheld
    · have hne := tx_ne_of_committed hsettled.1 hactive
      exact Or.inl ⟨(update_of_ne hne _ _).trans hsettled.1,
        mem_append_right _ hsettled.2⟩
    · by_cases htx : p.tx = t
      · refine Or.inl ⟨?_, mem_append_left _ (mem_map_of_mem (mem_filter.mpr ⟨hp, ?_⟩))⟩
        · subst htx
          exact update_self ..
        · exact decide_eq_true ⟨htx, rfl⟩
      · refine Or.inr ⟨(update_of_ne htx _ _).trans hheld.active,
          (locksWithout_of_ne (hheld.lock_ne htx)).trans hheld.lock, fun id hid => ?_⟩
        rcases mem_append.mp hid with hnew | hold
        · -- the item's row is held by the one transaction, not by both
          obtain ⟨q, hq, hqt, hqk, -⟩ := mem_committed_ids hnew
          have hlock : s.itemLocks p.item = some t := by
            rw [← hqk, ← hqt]
            exact (h.held hq (hqt ▸ hactive)).lock
          exact absurd hlock (hheld.lock_ne htx)
        · exact hheld.later id hold
  · intro k
    refine pairwise_append.mpr ⟨pairwise_map.mpr (h.ids.filter _), h.history k, ?_⟩
    intro later hlater earlier hearlier
    obtain ⟨q, hq, hqt, rfl, rfl⟩ := mem_committed_ids hlater
    exact (h.held hq (hqt ▸ hactive)).later earlier hearlier
  · intro k id hid
    rcases mem_append.mp hid with hnew | hold
    · obtain ⟨q, hq, -, -, rfl⟩ := mem_committed_ids hnew
      exact h.fresh q hq
    · exact h.known k id hold

theorem Serial.abort (h : s.Serial) {t : ℕ} : (s.abort t).Serial := by
  have hpending : ∀ p ∈ (s.abort t).pending, p ∈ s.pending ∧ p.tx ≠ t := by
    intro p hp
    obtain ⟨hp, hne⟩ := mem_filter.mp hp
    exact ⟨hp, decide_eq_true_eq.mp hne⟩
  refine ⟨?_, ?_, h.ids.filter _, fun p hp => h.fresh p (hpending p hp).1, h.history, h.known⟩
  · intro k t' hlock
    obtain ⟨hlock, hne⟩ := of_locksWithout hlock
    exact (update_of_ne hne _ _).trans (h.lockers k t' hlock)
  · intro p hp
    obtain ⟨hp, hne⟩ := hpending p hp
    rcases h.rows p hp with hsettled | hheld
    · exact Or.inl ⟨(update_of_ne hne _ _).trans hsettled.1, hsettled.2⟩
    · exact Or.inr ⟨(update_of_ne hne _ _).trans hheld.active,
        (locksWithout_of_ne (hheld.lock_ne hne)).trans hheld.lock, hheld.later⟩

theorem Serial.lockItem (h : s.Serial) {t k : ℕ} (hactive : s.txs t = .active)
    (hfree : s.itemLocks k = none) : (s.lockItem t k).Serial := by
  refine ⟨?_, ?_, h.ids, h.fresh, h.history, h.known⟩
  · intro k' t' hlock
    by_cases hk : k' = k
    · subst hk
      change update s.itemLocks k' (some t) k' = some t' at hlock
      rw [update_self] at hlock
      cases hlock
      exact hactive
    · exact h.lockers k' t' ((update_of_ne hk _ _).symm.trans hlock)
  · intro p hp
    refine (h.rows p hp).imp id fun hheld => ⟨hheld.active, ?_, hheld.later⟩
    have hne : p.item ≠ k := by
      rintro rfl
      rw [hheld.lock] at hfree
      cases hfree
    exact (update_of_ne hne _ _).trans hheld.lock

theorem mem_of_mem_move {batch : List StreamRow} (hp : p ∈ (s.move batch).pending) :
    p ∈ s.pending ∧ ∀ x ∈ batch, x.record.id ≠ p.id := by
  obtain ⟨hp, hnot⟩ := mem_filter.mp hp
  exact ⟨hp, decide_eq_true_eq.mp hnot⟩

theorem Serial.keep (h : s.Serial) (htxs : s'.txs = s.txs) (hlocks : s'.itemLocks = s.itemLocks)
    (hhistory : s'.history = s.history) (hlast : s'.lastId = s.lastId)
    (hpending : s'.pending.Sublist s.pending) : s'.Serial := by
  refine ⟨?_, fun p hp => ?_, h.ids.sublist hpending, fun p hp => ?_, ?_, ?_⟩
  · rw [hlocks, htxs]
    exact h.lockers
  · refine (h.rows p (hpending.subset hp)).imp (fun hsettled => ?_) fun hheld => ⟨?_, ?_, ?_⟩
    · rw [Settled, htxs, hhistory]
      exact hsettled
    · rw [htxs]
      exact hheld.active
    · rw [hlocks]
      exact hheld.lock
    · rw [hhistory]
      exact hheld.later
  · rw [hlast]
    exact h.fresh p (hpending.subset hp)
  · rw [hhistory]
    exact h.history
  · rw [hhistory, hlast]
    exact h.known

theorem Serial.moves (h : s.Serial) (hmoves : Moves s s') : s'.Serial := by
  cases hmoves with
  | locksItem hactive hfree => exact h.lockItem hactive hfree
  | stores p hactive hlock hid => exact h.store hactive hlock hid
  | commits hactive => exact h.commit hactive
  | aborts => exact h.abort
  | turns | numbers => exact h.keep rfl rfl rfl rfl (List.Sublist.refl _)
  | moves => exact h.keep rfl rfl rfl rfl filter_sublist
  | reads => exact h.keep rfl rfl rfl rfl (List.Sublist.refl _)

theorem Settled.moves (h : s.Settled p) (hmoves : Moves s s') : s'.Settled p := by
  cases hmoves with
  | commits hactive =>
    have hne := tx_ne_of_committed h.1 hactive
    exact ⟨(update_of_ne hne _ _).trans h.1, mem_append_right _ h.2⟩
  | aborts hactive =>
    have hne := tx_ne_of_committed h.1 hactive
    exact ⟨(update_of_ne hne _ _).trans h.1, h.2⟩
  | locksItem | stores | turns | numbers | moves | reads => exact h

/-! ## Numbers in the order in which they become visible -/

/-- A row of a numbering transaction that has not committed. -/
structure Moving (s : ShardStream) (x : StreamRow) : Prop where
  pending : x.record ∈ s.pending
  settled : s.Settled x.record
  number_le : x.sequenceNumber ≤ s.lastNumber
  above : ∀ y ∈ s.log, y.sequenceNumber < x.sequenceNumber
  first : ∀ p ∈ s.pending, x.record.item = p.item →
    (∃ y ∈ s.numbering.batch, y.record = p) ∨ x.record.id < p.id

structure Numbered (s : ShardStream) : Prop where
  logged : ∀ x ∈ s.log, s.Settled x.record ∧ x.sequenceNumber ≤ s.lastNumber
  behind : ∀ x ∈ s.log, ∀ p ∈ s.pending,
    x.record.id ≠ p.id ∧ (x.record.item = p.item → x.record.id < p.id)
  order : s.log.Pairwise (fun later earlier => earlier.Precedes later)
  moving : ∀ x ∈ s.numbering.batch, s.Moving x
  batch : s.numbering.batch.Pairwise StreamRow.Precedes

theorem numbered_initial : Numbered initial where
  logged _ h := nomatch h
  behind _ h := nomatch h
  order := List.Pairwise.nil
  moving _ h := nomatch h
  batch := List.Pairwise.nil

theorem Numbered.keep (h : s.Numbered) (hserial : s.Serial) (hmoves : Moves s s')
    (hlog : s'.log = s.log) (hlast : s'.lastNumber = s.lastNumber)
    (hnumbering : s'.numbering = s.numbering ∨ s'.numbering.batch = [])
    (hpending : ∀ p ∈ s'.pending, p ∈ s.pending ∨ s.lastId < p.id)
    (hmoving : ∀ p ∈ s.pending, s.Settled p → p ∈ s'.pending) : s'.Numbered := by
  refine ⟨?_, ?_, hlog ▸ h.order, ?_, ?_⟩
  · intro x hx
    rw [hlog] at hx
    exact ⟨(h.logged x hx).1.moves hmoves, hlast ▸ (h.logged x hx).2⟩
  · intro x hx p hp
    rw [hlog] at hx
    rcases hpending p hp with hp | hid
    · exact h.behind x hx p hp
    · have hlt := lt_of_le_of_lt (hserial.known _ _ (h.logged x hx).1.2) hid
      exact ⟨Nat.ne_of_lt hlt, fun _ => hlt⟩
  · intro x hx
    rcases hnumbering with hsame | hnone
    · rw [hsame] at hx
      have hx' := h.moving x hx
      refine ⟨hmoving _ hx'.pending hx'.settled, hx'.settled.moves hmoves, hlast ▸ hx'.number_le,
        hlog ▸ hx'.above, fun p hp hitem => ?_⟩
      rw [hsame]
      rcases hpending p hp with hp | hid
      · exact hx'.first p hp hitem
      · exact Or.inr (lt_of_le_of_lt (hserial.fresh _ hx'.pending) hid)
    · rw [hnone] at hx
      cases hx
  · rcases hnumbering with hsame | hnone
    · exact hsame ▸ h.batch
    · exact hnone ▸ List.Pairwise.nil

theorem Numbered.number (h : s.Numbered) (hserial : s.Serial) {owner : Option ℕ}
    {limit bytes last : ℕ} {values : List ℕ} (hdraws : s.Draws limit bytes values last) :
    (s.number owner
      (insertedRows (numberingBatch s.committedRows limit bytes) values) last).Numbered := by
  obtain ⟨-, -, hlength, hnodup, hlast, hvalues⟩ := hdraws
  have hdistinct := hserial.distinct_committedRows
  refine ⟨fun x hx => ⟨(h.logged x hx).1, le_trans (h.logged x hx).2 hlast⟩, h.behind, h.order, ?_,
    insertedRows_precedes (numberingBatch_ascending hdistinct) hnodup⟩
  intro x hx
  obtain ⟨hrecord, hnumber⟩ := mem_insertedRows hx
  obtain ⟨hpending, hcommitted⟩ := mem_committedRows.mp (mem_of_mem_numberingBatch hrecord)
  have hsettled := hserial.settled hpending hcommitted
  refine ⟨hpending, hsettled, (hvalues _ hnumber).2,
    fun y hy => lt_of_le_of_lt (h.logged y hy).2 (hvalues _ hnumber).1, fun p hp hitem => ?_⟩
  rcases hserial.rows p hp with hsettledp | hheld
  · -- a committed row is in the batch or behind it
    by_cases hin : p ∈ numberingBatch s.committedRows limit bytes
    · rw [← map_record_insertedRows hlength] at hin
      obtain ⟨y, hy, hyp⟩ := mem_map.mp hin
      exact Or.inl ⟨y, hy, hyp⟩
    · exact Or.inr (lt_of_not_mem_numberingBatch hdistinct
        (mem_committedRows.mpr ⟨hp, hsettledp.1⟩) hin _ hrecord)
  · -- a row of a transaction under way was stored after the item's committed ones
    exact Or.inr (hheld.later _ (hitem ▸ hsettled.2))

theorem Numbered.move (h : s.Numbered) {owner : Option ℕ} {batch : List StreamRow}
    (hnumbered : s.numbering = .numbered owner batch) (phases : ℕ → Poll) :
    ((s.move batch).turn .free phases).Numbered := by
  have hbatch : s.numbering.batch = batch := by
    rw [hnumbered]
    rfl
  have hmoving : ∀ x ∈ batch, s.Moving x := fun x hx => h.moving x (hbatch ▸ hx)
  refine ⟨?_, ?_, ?_, fun _ hx => absurd hx not_mem_nil, List.Pairwise.nil⟩
  · intro x hx
    rcases mem_append.mp hx with hx | hx
    · have hx := hmoving x (mem_reverse.mp hx)
      exact ⟨hx.settled, hx.number_le⟩
    · exact h.logged x hx
  · intro x hx p hp
    obtain ⟨hp, hnot⟩ := mem_of_mem_move hp
    rcases mem_append.mp hx with hx | hx
    · have hx := mem_reverse.mp hx
      refine ⟨hnot x hx, fun hitem => ?_⟩
      rcases (hmoving x hx).first p hp hitem with ⟨y, hy, rfl⟩ | hlt
      · exact absurd rfl (hnot y (hbatch ▸ hy))
      · exact hlt
    · exact h.behind x hx p hp
  · refine pairwise_append.mpr ⟨pairwise_reverse.mpr (hbatch ▸ h.batch), h.order, ?_⟩
    intro later hlater earlier hearlier
    have hlater := hmoving later (mem_reverse.mp hlater)
    obtain ⟨hne, hlt⟩ := h.behind earlier hearlier _ hlater.pending
    exact ⟨hlater.above earlier hearlier, hne, hlt⟩

theorem Numbered.moves (h : s.Numbered) (hserial : s.Serial) (hmoves : Moves s s') :
    s'.Numbered := by
  have hkeep := h.keep hserial hmoves
  cases hmoves with
  | locksItem => exact hkeep rfl rfl (Or.inl rfl) (fun _ hp => Or.inl hp) (fun _ hp _ => hp)
  | stores p _ _ hid =>
    refine hkeep rfl rfl (Or.inl rfl) (fun q hq => ?_) (fun q hq _ => mem_cons_of_mem _ hq)
    rcases mem_cons.mp hq with rfl | hq
    · exact Or.inr hid
    · exact Or.inl hq
  | commits => exact hkeep rfl rfl (Or.inl rfl) (fun _ hp => Or.inl hp) (fun _ hp _ => hp)
  | aborts hactive =>
    refine hkeep rfl rfl (Or.inl rfl) (fun p hp => Or.inl (mem_filter.mp hp).1) ?_
    intro p hp hsettled
    exact mem_filter.mpr ⟨hp, decide_eq_true (tx_ne_of_committed hsettled.1 hactive)⟩
  | turns hbatch =>
    refine hkeep rfl rfl ?_ (fun _ hp => Or.inl hp) (fun _ hp _ => hp)
    rcases hbatch with rfl | rfl | ⟨owner, rfl⟩
    · exact Or.inl rfl
    · exact Or.inr rfl
    · exact Or.inr rfl
  | numbers _ hdraws => exact h.number hserial hdraws
  | moves hnumbered => exact h.move hnumbered _
  | reads => exact hkeep rfl rfl (Or.inl rfl) (fun _ hp => Or.inl hp) (fun _ hp _ => hp)

/-! ## Readers -/

/-- What holds of a shard in every run: each reader has been given the records up to its cursor,
and the cursor is the number of a visible record. -/
structure Followed (s : ShardStream) : Prop where
  serial : s.Serial
  numbered : s.Numbered
  cursors : ∀ reader c, (s.readers reader).cursor = some c → ∃ x ∈ s.log, x.sequenceNumber = c
  follows : ∀ reader, (s.readers reader).Follows StreamRow.sequenceNumber s.log

theorem followed_initial : Followed initial where
  serial := serial_initial
  numbered := numbered_initial
  cursors _ _ h := nomatch h
  follows _ := Reader.follows_fresh

theorem Numbered.distinct (h : s.Numbered) : Distinct StreamRow.sequenceNumber s.log :=
  h.order.imp fun hprecedes => (Nat.ne_of_lt hprecedes.number).symm

theorem Followed.moves (h : s.Followed) (hmoves : Moves s s') : s'.Followed := by
  refine ⟨h.serial.moves hmoves, h.numbered.moves h.serial hmoves, ?_, ?_⟩
  · intro reader c hc
    cases hmoves with
    | @reads reader' limit hlimit =>
      by_cases hr : reader = reader'
      · subst hr
        simp only [read, update_self] at hc
        rcases (s.readers reader).poll_cursor StreamRow.sequenceNumber s.log limit with
          ⟨-, hcursor⟩ | ⟨last, hlast, hcursor⟩
        · exact h.cursors reader c (hcursor ▸ hc)
        · exact ⟨last, (mem_page hlast).1, Option.some.inj (hcursor ▸ hc)⟩
      · simp only [read, update_of_ne hr] at hc
        exact h.cursors reader c hc
    | moves =>
      obtain ⟨x, hx, hnumber⟩ := h.cursors reader c hc
      exact ⟨x, mem_append_right _ hx, hnumber⟩
    | locksItem | stores | commits | aborts | turns | numbers => exact h.cursors reader c hc
  · intro reader
    cases hmoves with
    | @reads reader' limit hlimit =>
      by_cases hr : reader = reader'
      · subst hr
        simp only [read, update_self]
        exact (h.follows reader).poll h.numbered.distinct _
      · simp only [read, update_of_ne hr]
        exact h.follows reader
    | moves hnumbered =>
      -- the cursor is a number of the log, and the batch is above all of them
      refine (h.follows reader).append fun x hx c hc => ?_
      obtain ⟨y, hy, rfl⟩ := h.cursors reader c hc
      refine (h.numbered.moving x ?_).above y hy
      rw [hnumbered]
      exact mem_reverse.mp hx
    | locksItem | stores | commits | aborts | turns | numbers => exact h.follows reader

/-! ## Every committed record is numbered and returned -/

/-- The record is visible. -/
def Visible (s : ShardStream) (p : PendingRow) : Prop := ∃ x ∈ s.log, x.record = p

theorem Visible.moves (h : s.Visible p) (hmoves : Moves s s') : s'.Visible p := by
  obtain ⟨x, hx, hrecord⟩ := h
  cases hmoves with
  | moves => exact ⟨x, mem_append_right _ hx, hrecord⟩
  | locksItem | stores | commits | aborts | turns | numbers | reads => exact ⟨x, hx, hrecord⟩

theorem Followed.visible_or_mem_move (h : s.Followed) {owner : Option ℕ} {batch : List StreamRow}
    (hnumbered : s.numbering = .numbered owner batch) (hp : p ∈ s.pending) :
    (∃ x ∈ batch, x.record = p) ∨ p ∈ (s.move batch).pending := by
  by_cases hin : ∃ x ∈ batch, x.record.id = p.id
  · obtain ⟨x, hx, hid⟩ := hin
    have hmoving := h.numbered.moving x (by rw [hnumbered]; exact hx)
    exact Or.inl ⟨x, hx, h.serial.eq_of_id_eq hmoving.pending hp hid⟩
  · refine Or.inr (mem_filter.mpr ⟨hp, decide_eq_true fun x hx hid => hin ⟨x, hx, hid⟩⟩)

theorem Followed.kept_moves (h : s.Followed) (hmoves : Moves s s')
    (hp : p ∈ s.pending ∨ s.txs p.tx = .aborted ∨ s.Visible p) :
    p ∈ s'.pending ∨ s'.txs p.tx = .aborted ∨ s'.Visible p := by
  rcases hp with hp | haborted | hvisible
  · cases hmoves with
    | stores => exact Or.inl (mem_cons_of_mem _ hp)
    | @aborts t hactive =>
      by_cases htx : p.tx = t
      · subst htx
        exact Or.inr (Or.inl (update_self ..))
      · exact Or.inl (mem_filter.mpr ⟨hp, decide_eq_true htx⟩)
    | moves hnumbered =>
      rcases h.visible_or_mem_move hnumbered hp with ⟨x, hx, hrecord⟩ | hp
      · exact Or.inr (Or.inr ⟨x, mem_append_left _ (mem_reverse.mpr hx), hrecord⟩)
      · exact Or.inl hp
    | locksItem | commits | turns | numbers | reads => exact Or.inl hp
  · have hne : ∀ t, s.txs t = .active → p.tx ≠ t := by
      rintro t hactive rfl
      rw [haborted] at hactive
      cases hactive
    refine Or.inr (Or.inl ?_)
    cases hmoves with
    | commits hactive => exact (update_of_ne (hne _ hactive) _ _).trans haborted
    | aborts hactive => exact (update_of_ne (hne _ hactive) _ _).trans haborted
    | locksItem | stores | turns | numbers | moves | reads => exact haborted
  · exact Or.inr (Or.inr (hvisible.moves hmoves))

/-- How many pending rows have no higher id. -/
def rank (s : ShardStream) (p : PendingRow) : ℕ :=
  (s.pending.filter (fun q => q.id ≤ p.id)).length

/-- One more numbering may have to commit when the one under way took its batch before the record
was committed. -/
def lag (s : ShardStream) (p : PendingRow) : ℕ :=
  match s.numbering with
  | .numbered _ batch => if ∃ x ∈ batch, x.record.id ≤ p.id then 0 else 1
  | _ => 0

/-- A committed record that is not visible yet, and how many more numberings can commit before it
is. -/
structure Awaits (s : ShardStream) (p : PendingRow) (bound : ℕ) : Prop where
  pending : p ∈ s.pending
  settled : s.Settled p
  bounded : s.numberings + s.rank p + s.lag p ≤ bound

theorem rank_pos (hp : p ∈ s.pending) : 0 < s.rank p :=
  length_pos_of_mem (mem_filter.mpr ⟨hp, decide_eq_true (le_refl _)⟩)

theorem lag_le_one (s : ShardStream) (p : PendingRow) : s.lag p ≤ 1 := by
  unfold lag
  split
  · split <;> omega
  · omega

theorem rank_le_of_sublist (h : s'.pending.Sublist s.pending) : s'.rank p ≤ s.rank p :=
  (h.filter _).length_le

theorem rank_store {q : PendingRow} (h : p.id < q.id) : (s.store q).rank p = s.rank p := by
  have hnot : ¬ (decide (q.id ≤ p.id) = true) := by
    rw [decide_eq_true_eq]
    omega
  unfold rank store
  rw [filter_cons, if_neg hnot]

theorem rank_move_lt {batch : List StreamRow} {x : StreamRow} (hx : x ∈ batch)
    (hpending : x.record ∈ s.pending) (hle : x.record.id ≤ p.id) :
    (s.move batch).rank p < s.rank p := by
  have hsub : ((s.move batch).pending.filter (fun q => q.id ≤ p.id)).Sublist
      (s.pending.filter (fun q => q.id ≤ p.id)) := filter_sublist.filter _
  refine lt_of_le_of_ne hsub.length_le fun hlength => ?_
  have hmem : x.record ∈ s.pending.filter (fun q => q.id ≤ p.id) :=
    mem_filter.mpr ⟨hpending, decide_eq_true hle⟩
  rw [← hsub.eq_of_length hlength] at hmem
  exact (mem_of_mem_move (mem_filter.mp hmem).1).2 x hx rfl

theorem Followed.awaits_moves (h : s.Followed) {bound : ℕ} (hmoves : Moves s s')
    (hp : s.Awaits p bound) : s'.Visible p ∨ s'.Awaits p bound := by
  have hsettled := hp.settled.moves hmoves
  have hbounded := hp.bounded
  cases hmoves with
  | locksItem => exact Or.inr ⟨hp.pending, hsettled, hbounded⟩
  | stores q _ _ hid =>
    have hrank : (s.store q).rank p = s.rank p :=
      rank_store (lt_of_le_of_lt (h.serial.fresh p hp.pending) hid)
    refine Or.inr ⟨mem_cons_of_mem _ hp.pending, hsettled, ?_⟩
    rw [hrank]
    exact hbounded
  | commits => exact Or.inr ⟨hp.pending, hsettled, hbounded⟩
  | @aborts t hactive =>
    have hrank : (s.abort t).rank p ≤ s.rank p := rank_le_of_sublist filter_sublist
    have hlag : (s.abort t).lag p = s.lag p := rfl
    have hcount : (s.abort t).numberings = s.numberings := rfl
    refine Or.inr ⟨mem_filter.mpr ⟨hp.pending, ?_⟩, hsettled, by omega⟩
    exact decide_eq_true (tx_ne_of_committed hp.settled.1 hactive)
  | @turns numbering phases hbatch =>
    have hlag : (s.turn numbering phases).lag p ≤ s.lag p := by
      rcases hbatch with rfl | rfl | ⟨owner, rfl⟩
      · exact le_refl _
      · exact Nat.zero_le _
      · exact Nat.zero_le _
    have hrank : (s.turn numbering phases).rank p = s.rank p := rfl
    have hcount : (s.turn numbering phases).numberings = s.numberings := rfl
    exact Or.inr ⟨hp.pending, hsettled, by omega⟩
  | @numbers owner limit bytes last values hlocked hdraws =>
    -- the batch is taken now, so it has a row that is not behind the record
    obtain ⟨hlimit, hbytes, hlength, -⟩ := hdraws
    obtain ⟨q, hq, hle⟩ := exists_mem_numberingBatch_le h.serial.distinct_committedRows hlimit
      hbytes (mem_committedRows.mpr ⟨hp.pending, hp.settled.1⟩)
    rw [← map_record_insertedRows hlength] at hq
    obtain ⟨x, hx, rfl⟩ := mem_map.mp hq
    refine Or.inr ⟨hp.pending, hsettled, ?_⟩
    have hlag : (s.number owner
        (insertedRows (numberingBatch s.committedRows limit bytes) values) last).lag p = 0 :=
      if_pos ⟨x, hx, hle⟩
    rw [hlag]
    change s.numberings + s.rank p + 0 ≤ bound
    omega
  | @moves owner batch hnumbered =>
    rcases h.visible_or_mem_move hnumbered hp.pending with ⟨x, hx, hrecord⟩ | hstays
    · exact Or.inl ⟨x, mem_append_left _ (mem_reverse.mpr hx), hrecord⟩
    · refine Or.inr ⟨hstays, hsettled, ?_⟩
      have hrank : (s.move batch).rank p + 1 ≤ s.rank p + s.lag p := by
        by_cases hin : ∃ x ∈ batch, x.record.id ≤ p.id
        · obtain ⟨x, hx, hle⟩ := hin
          have hmoving := h.numbered.moving x (by rw [hnumbered]; exact hx)
          have := rank_move_lt hx hmoving.pending hle
          omega
        · have hle : (s.move batch).rank p ≤ s.rank p := rank_le_of_sublist filter_sublist
          have hlag : s.lag p = 1 := by
            unfold lag
            rw [hnumbered]
            exact if_neg hin
          omega
      change s.numberings + 1 + (s.move batch).rank p + 0 ≤ bound
      omega
  | reads => exact Or.inr ⟨hp.pending, hsettled, hbounded⟩

/-- The polls of a reader that have numbered, the one under way included. -/
def lead (s : ShardStream) (reader : ℕ) : ℕ :=
  s.served reader + if s.phases reader = .ready then 1 else 0

theorem lead_moves (hmoves : Moves s s') (hp : p ∈ s.committedRows) (reader : ℕ) :
    s'.lead reader + s.numberings ≤ s.lead reader + s'.numberings := by
  cases hmoves with
  | locksItem | stores | commits | aborts | numbers => exact le_refl _
  | @turns numbering phases _ hready =>
    have hphase : phases reader = .ready → s.phases reader = .ready := by
      intro hphase
      refine (hready reader hphase).resolve_right fun hnothing => ?_
      rw [hnothing] at hp
      cases hp
    change s.served reader + (if phases reader = .ready then 1 else 0) + s.numberings ≤
      s.served reader + (if s.phases reader = .ready then 1 else 0) + s.numberings
    split
    · rename_i hready'
      rw [if_pos (hphase hready')]
    · omega
  | @moves owner batch hnumbered =>
    change s.served reader + (if s.phasesAfter owner .ready reader = .ready then 1 else 0) +
      s.numberings ≤ s.served reader + (if s.phases reader = .ready then 1 else 0) +
        (s.numberings + 1)
    split <;> omega
  | @reads reader' limit hlimit =>
    by_cases hr : reader = reader'
    · subst hr
      have hidle : ¬ Poll.idle = Poll.ready := by decide
      simp only [lead, read, update_self, if_neg hidle]
      exact le_refl _
    · simp only [lead, read, update_of_ne hr]
      exact le_refl _

theorem log_suffix_moves (hmoves : Moves s s') : s.log <:+ s'.log := by
  cases hmoves with
  | moves => exact suffix_append _ _
  | locksItem | stores | commits | aborts | turns | numbers | reads => exact suffix_rfl

theorem polls_gap_moves (hmoves : Moves s s') {x : StreamRow} (hx : x ∈ s.log)
    {reader bound : ℕ} (hbound : gap (s.readers reader).cursor x.sequenceNumber = 0 ∨
      s.polls reader + gap (s.readers reader).cursor x.sequenceNumber ≤ bound) :
    gap (s'.readers reader).cursor x.sequenceNumber = 0 ∨
      s'.polls reader + gap (s'.readers reader).cursor x.sequenceNumber ≤ bound := by
  cases hmoves with
  | @reads reader' limit hlimit =>
    by_cases hr : reader = reader'
    · subst hr
      simp only [read, update_self]
      exact Reader.polls_gap_poll hx hlimit hbound
    · simp only [read, update_of_ne hr]
      exact hbound
  | locksItem | stores | commits | aborts | turns | numbers | moves => exact hbound

theorem Numbered.precedes (h : s.Numbered) {x y : StreamRow} (hx : x ∈ s.log) (hy : y ∈ s.log)
    (hlt : x.sequenceNumber < y.sequenceNumber) : x.Precedes y := by
  have : Std.Symm (fun a b : StreamRow => a.Precedes b ∨ b.Precedes a) := ⟨fun _ _ h => h.symm⟩
  have hpairs : s.log.Pairwise (fun a b => a.Precedes b ∨ b.Precedes a) := h.order.imp Or.inr
  have hne : x ≠ y := by
    rintro rfl
    exact lt_irrefl _ hlt
  rcases hpairs.forall hx hy hne with hprecedes | hprecedes
  · exact hprecedes
  · exact absurd hprecedes.number (lt_asymm hlt)

theorem Followed.got_precedes (h : s.Followed) (reader : ℕ) :
    (s.readers reader).got.Pairwise StreamRow.Precedes :=
  (h.follows reader).ascending.imp_of_mem fun hx hy hlt =>
    h.numbered.precedes ((h.follows reader).sound _ hx) ((h.follows reader).sound _ hy) hlt

theorem Followed.got_sublist_history (h : s.Followed) (reader k : ℕ) :
    (((s.readers reader).got.filter (fun x => x.record.item = k)).map (fun x => x.record.id)).Sublist
      (s.history k).reverse := by
  have hmem : ∀ x ∈ (s.readers reader).got.filter (fun x => x.record.item = k),
      x ∈ (s.readers reader).got ∧ x.record.item = k := by
    intro x hx
    obtain ⟨hx, hitem⟩ := mem_filter.mp hx
    exact ⟨hx, decide_eq_true_eq.mp hitem⟩
  have hgot : (((s.readers reader).got.filter (fun x => x.record.item = k)).map
      (fun x => x.record.id)).Pairwise (· < ·) := by
    refine pairwise_map.mpr (((h.got_precedes reader).filter _).imp_of_mem ?_)
    intro x y hx hy hprecedes
    exact hprecedes.id_lt ((hmem x hx).2.trans (hmem y hy).2.symm)
  have hsubset : (((s.readers reader).got.filter (fun x => x.record.item = k)).map
      (fun x => x.record.id)) ⊆ (s.history k).reverse := by
    intro id hid
    obtain ⟨x, hx, rfl⟩ := mem_map.mp hid
    obtain ⟨hgot, hitem⟩ := hmem x hx
    rw [mem_reverse, ← hitem]
    exact (h.numbered.logged x ((h.follows reader).sound x hgot)).1.2
  have hhistory : (s.history k).reverse.Pairwise (· < ·) :=
    pairwise_reverse.mpr (h.serial.history k)
  exact sublist_of_subperm_of_pairwise
    (subperm_of_subset (hgot.imp Nat.ne_of_lt) hsubset)
    (hgot.imp Nat.le_of_lt) (hhistory.imp Nat.le_of_lt)

end ShardStream

open EventRun ShardStream

/-- The shards that any events lead to. -/
def StreamRun : ShardStream → ShardStream → Prop := Reaches ShardStream.step Anything

namespace StreamRun

variable {s s' : ShardStream} {p : PendingRow}

theorem keeps (h : StreamRun s s') (hs : s.Followed) {I : ShardStream → Prop}
    (hstep : ∀ s s', s.Followed → Moves s s' → I s → I s') (hI : I s) : s'.Followed ∧ I s' :=
  Reaches.keeps (I := fun s => s.Followed ∧ I s) h
    (fun _ _ _ _ hstep' ⟨hf, hI⟩ =>
      ⟨hf.moves (moves_of_step hstep'), hstep _ _ hf (moves_of_step hstep') hI⟩)
    ⟨hs, hI⟩

theorem followed (h : StreamRun s s') (hs : s.Followed) : s'.Followed :=
  (h.keeps hs (I := fun _ => True) (fun _ _ _ _ _ => trivial) trivial).1

theorem log_suffix (h : StreamRun s s') (hs : s.Followed) : s.log <:+ s'.log :=
  (h.keeps hs (I := fun t => s.log <:+ t.log)
    (fun _ _ _ hmoves hsuffix => hsuffix.trans (log_suffix_moves hmoves)) suffix_rfl).2

/-- Enough committed numberings, or enough polls of one reader that have numbered, make a committed
record visible. -/
theorem visible (h : StreamRun s s') (hs : s.Followed) (hp : p ∈ s.pending)
    (hcommitted : s.txs p.tx = .committed) (reader : ℕ)
    (henough : s.numberings + s.rank p + 1 ≤ s'.numberings ∨
      s.served reader + s.rank p + 2 ≤ s'.served reader) : s'.Visible p := by
  have hstart : s.Awaits p (s.numberings + s.rank p + 1) := by
    have := lag_le_one s p
    exact ⟨hp, hs.serial.settled hp hcommitted, by omega⟩
  obtain ⟨hf, hvisible | ⟨hawaits, hlead⟩⟩ := h.keeps hs
    (I := fun t => t.Visible p ∨ t.Awaits p (s.numberings + s.rank p + 1) ∧
      t.lead reader + s.numberings ≤ s.lead reader + t.numberings)
    (fun t t' hf hmoves hI => by
      rcases hI with hvisible | ⟨hawaits, hlead⟩
      · exact Or.inl (hvisible.moves hmoves)
      · refine (hf.awaits_moves hmoves hawaits).imp id fun hawaits' => ⟨hawaits', ?_⟩
        have := lead_moves hmoves
          (mem_committedRows.mpr ⟨hawaits.pending, hawaits.settled.1⟩) reader
        omega)
    (Or.inr ⟨hstart, le_refl _⟩)
  · exact hvisible
  · -- the record is still pending, so too few numberings have committed
    have hbounded := hawaits.bounded
    have hrank := rank_pos hawaits.pending
    have hserved : s'.served reader ≤ s'.lead reader := Nat.le_add_right _ _
    have hready : s.lead reader ≤ s.served reader + 1 := by
      unfold lead
      split <;> omega
    omega

theorem returned (h : StreamRun s s') (hs : s.Followed) {x : StreamRow} (hx : x ∈ s.log)
    (reader : ℕ) (hpolls : s.polls reader + gap (s.readers reader).cursor x.sequenceNumber ≤
      s'.polls reader) : x ∈ (s'.readers reader).got := by
  obtain ⟨hf, hx', hbound⟩ := h.keeps hs
    (I := fun t => x ∈ t.log ∧ (gap (t.readers reader).cursor x.sequenceNumber = 0 ∨
      t.polls reader + gap (t.readers reader).cursor x.sequenceNumber ≤
        s.polls reader + gap (s.readers reader).cursor x.sequenceNumber))
    (fun _ _ _ hmoves ⟨hmem, hb⟩ =>
      ⟨(log_suffix_moves hmoves).subset hmem, polls_gap_moves hmoves hmem hb⟩)
    ⟨hx, Or.inr (le_refl _)⟩
  refine (hf.follows reader).mem_got hx' ?_
  rcases hbound with hzero | hbound
  · exact hzero
  · omega

end StreamRun

/-- Readers pass no record.  The numbered records only grow, each above the ones before it, and a
stored record is never lost.  A reader is given each record at most once, only records of committed
writes, and those of one item in the order of its writes.  A committed record is visible once as many
numberings as there are pending records up to it have committed after the one under way, and each
reader is given it after as many polls as its number is then above the reader's cursor. -/
theorem numbered_readers_pass_no_record (s : ShardStream) (hrun : StreamRun .initial s) :
    (∀ s', StreamRun s s' → s.log <:+ s'.log) ∧
    s.log.Pairwise (fun later earlier => earlier.sequenceNumber < later.sequenceNumber) ∧
    (∀ p ∈ s.pending, ∀ s', StreamRun s s' →
      p ∈ s'.pending ∨ s'.txs p.tx = .aborted ∨ ∃ x ∈ s'.log, x.record = p) ∧
    ∀ reader,
      ((s.readers reader).got.map (fun x => x.record.id)).Nodup ∧
      (∀ x ∈ (s.readers reader).got, s.txs x.record.tx = .committed) ∧
      (∀ k, (((s.readers reader).got.filter (fun x => x.record.item = k)).map
        (fun x => x.record.id)).Sublist (s.history k).reverse) ∧
      ∀ p ∈ s.pending, s.txs p.tx = .committed → ∀ s', StreamRun s s' →
        (s.numberings + s.rank p + 1 ≤ s'.numberings ∨
          s.served reader + s.rank p + 2 ≤ s'.served reader) →
        ∃ x ∈ s'.log, x.record = p ∧ ∀ s'', StreamRun s' s'' →
          s'.polls reader + gap (s'.readers reader).cursor x.sequenceNumber ≤ s''.polls reader →
          x ∈ (s''.readers reader).got := by
  have h := hrun.followed followed_initial
  refine ⟨fun s' hrun' => hrun'.log_suffix h, h.numbered.order.imp fun hlt => hlt.number, ?_, ?_⟩
  · intro p hp s' hrun'
    exact (hrun'.keeps h (fun _ _ hf hmoves hI => hf.kept_moves hmoves hI) (Or.inl hp)).2
  · intro reader
    refine ⟨pairwise_map.mpr ((h.got_precedes reader).imp fun hlt => hlt.id_ne),
      fun x hx => ?_, h.got_sublist_history reader, ?_⟩
    · exact (h.numbered.logged x ((h.follows reader).sound x hx)).1.1
    · intro p hp hcommitted s' hrun' henough
      obtain ⟨x, hx, hrecord⟩ := hrun'.visible h hp hcommitted reader henough
      exact ⟨x, hx, hrecord, fun s'' hrun'' hpolls =>
        hrun''.returned (hrun'.followed h) hx reader hpolls⟩

/-- Two writes of item 7, the second stored while a reader numbers the first. -/
theorem numbered_readers_pass_no_record_two :
    ∃ s, StreamRun .initial s ∧
      (s.readers 0).got.map (fun x => (x.record.id, x.sequenceNumber)) = [(1, 5), (4, 9)] ∧
      ((s.readers 0).got.map (fun x => x.record.id)).Nodup ∧
      (((s.readers 0).got.filter (fun x => x.record.item = 7)).map
        (fun x => x.record.id)).Sublist (s.history 7).reverse := by
  have hrun : StreamRun .initial _ := Reaches.of_run
    [.locksItem 0 7, .stores 0 7 1 100, .commits 0, .locksItem 1 7, .readerLocks 0,
      .numbers 1000 1048576 [5] 5, .stores 1 7 4 100, .commits 1, .commitsNumbering, .reads 0 10,
      .workerLocks, .numbers 1000 1048576 [9] 9, .commitsNumbering, .findsNothing 0, .reads 0 10]
    rfl
  obtain ⟨-, -, -, hreader⟩ := numbered_readers_pass_no_record _ hrun
  exact ⟨_, hrun, rfl, (hreader 0).1, (hreader 0).2.2.1 7⟩

end ExtendDb.Postgres
