import ExtendDb.Theory.EventRun
import ExtendDb.Theory.NumberedLog
import Mathlib.Tactic.IntervalCases

/-!
# Parallel scans while the table changes

A segment of a scan is the rows with `rowid % total = segment`.  A put of a base item that exists
keeps its row; an index row is deleted and inserted again by every write of its item.
-/

namespace ExtendDb.Sqlite

open NumberedLog List Function Option

structure TableRow (κ : Type) where
  rowid : ℕ
  key : κ
deriving DecidableEq

/-- Where the scan of a segment is: in a page, or between two pages with the last key as the next
start key. -/
inductive SegmentPhase where
  | idle
  | reading
  | between
  | done
  | refused
deriving DecidableEq

structure SegmentScan (κ : Type) where
  phase : SegmentPhase
  cursor : Option κ
  got : List κ

/-- A table and the scans of its segments.  `home` is the segment the last row of a key was in, and
`steady` says which keys have been present since the start. -/
structure ParallelState (κ : Type) where
  rows : List (TableRow κ)
  scans : ℕ → SegmentScan κ
  home : κ → Option ℕ
  steady : κ → Bool

inductive ParallelEvent (κ : Type) where
  /-- An upsert of a base item. -/
  | put (k : κ) (rowid : ℕ)
  /-- A delete of a base item. -/
  | delete (k : κ)
  /-- `sync_indexes` for one item: the row of its old image goes, that of its new image comes. -/
  | sync (old new : Option κ) (rowid : ℕ)
  /-- A request for the first page, or for the next one with the last key. -/
  | request (segment : ℕ)
  /-- A storage read of `count` rows, of which the page takes `taken`; `full` when the page ends
  with them. -/
  | read (segment count taken : ℕ) (full : Bool)

variable {κ : Type} [LinearOrder κ]

namespace ParallelState

/-- A table before the first page. -/
def start (total : ℕ) (rows : List (TableRow κ)) : ParallelState κ where
  rows := rows
  scans := fun _ => ⟨.idle, none, []⟩
  home := fun k => (rows.find? fun row => row.key = k).map fun row => row.rowid % total
  steady := fun k => rows.any fun row => row.key = k

section

variable (s : ParallelState κ)

def remove (k : κ) : ParallelState κ :=
  { s with rows := s.rows.filter (fun row => row.key ≠ k) }

def insert (total : ℕ) (k : κ) (rowid : ℕ) : ParallelState κ :=
  { s with rows := ⟨rowid, k⟩ :: s.rows, home := update s.home k (some (rowid % total)) }

def lose (k : κ) : ParallelState κ :=
  { s with steady := update s.steady k false }

def setScan (segment : ℕ) (scan : SegmentScan κ) : ParallelState κ :=
  { s with scans := update s.scans segment scan }

def segmentRows (total segment : ℕ) : List (TableRow κ) :=
  s.rows.filter fun row => row.rowid % total = segment

def keyInSegment (total segment : ℕ) (k : κ) : Bool :=
  match s.rows.find? (fun row => row.key = k) with
  | some row => row.rowid % total == segment
  | none => true

def unused (rowid : ℕ) : Bool :=
  s.rows.all fun row => row.rowid ≠ rowid

/-- An index table after `sync_indexes` deleted the row of the old image.  The key is lost unless the
new image has it too. -/
def deleteOld (old new : Option κ) : ParallelState κ :=
  match old with
  | some k => if new = some k then s.remove k else (s.remove k).lose k
  | none => s

end

def step (total : ℕ) (index : Bool) (s : ParallelState κ) :
    ParallelEvent κ → Option (ParallelState κ)
  | .put k rowid =>
    if index then none
    else if s.rows.any (fun row => row.key = k) then some s
    else if s.unused rowid then some (s.insert total k rowid)
    else none
  | .delete k => if index then none else some ((s.remove k).lose k)
  | .sync old new rowid =>
    if !index then none
    else
      match new with
      | none => some (s.deleteOld old none)
      | some k =>
        -- INSERT OR REPLACE: a row with the same key goes
        let replaced := (s.deleteOld old new).remove k
        if replaced.unused rowid then some (replaced.insert total k rowid) else none
  | .request segment =>
    match (s.scans segment).phase with
    | .idle => some (s.setScan segment { s.scans segment with phase := .reading })
    | .between =>
      match (s.scans segment).cursor with
      | some k =>
        if s.keyInSegment total segment k then
          some (s.setScan segment { s.scans segment with phase := .reading })
        else some (s.setScan segment { s.scans segment with phase := .refused })
      | none => none
    | _ => none
  | .read segment count taken full =>
    let scan := s.scans segment
    let fetched := page TableRow.key (s.segmentRows total segment) scan.cursor (count + 1)
    if scan.phase = .reading ∧ 1 ≤ count ∧ taken ≤ (fetched.take count).length ∧
        (full = true → 1 ≤ taken) ∧ (full = false → taken = (fetched.take count).length) then
      some (s.setScan segment {
        phase := if full then .between else if fetched.length ≤ count then .done else .reading
        cursor := (((fetched.take taken).getLast?).map TableRow.key).or scan.cursor
        got := scan.got ++ (fetched.take taken).map TableRow.key })
    else none

/-- A write that inserts a row keeps the key in the segment it was in. -/
def StaysHome (total : ℕ) (s : ParallelState κ) : ParallelEvent κ → Prop
  | .put k rowid => s.rows.any (fun row => row.key = k) = false →
      ∀ h, s.home k = some h → rowid % total = h
  | .sync _ (some k) rowid => ∀ h, s.home k = some h → rowid % total = h
  | _ => True

/-! ## What every step keeps -/

/-- Every row is at home, every key returned for a segment was at home there, and a steady key of a
segment has been returned or is ahead of its cursor. -/
structure AtHome (total : ℕ) (s : ParallelState κ) : Prop where
  distinct : Distinct TableRow.key s.rows
  rows_home : ∀ row ∈ s.rows, s.home row.key = some (row.rowid % total)
  steady_row : ∀ k, s.steady k = true → ∃ row ∈ s.rows, row.key = k
  got_home : ∀ segment, ∀ k ∈ (s.scans segment).got, s.home k = some segment
  cursor_got : ∀ segment k, (s.scans segment).cursor = some k → k ∈ (s.scans segment).got
  ahead : ∀ segment k, s.steady k = true → s.home k = some segment →
    k ∈ (s.scans segment).got ∨ Above (s.scans segment).cursor k ∧ (s.scans segment).phase ≠ .done
  accepted : ∀ segment, (s.scans segment).phase ≠ .refused

variable {total : ℕ} {s : ParallelState κ}

theorem atHome_start {rows : List (TableRow κ)} (hdistinct : Distinct TableRow.key rows) :
    AtHome total (start total rows) where
  distinct := hdistinct
  rows_home row hrow := by
    have hsome : (rows.find? fun row' => row'.key = row.key).isSome = true := by
      rw [find?_isSome]
      exact ⟨row, hrow, decide_eq_true rfl⟩
    obtain ⟨found, hfound⟩ := isSome_iff_exists.mp hsome
    have hkey := find?_some hfound
    simp only [decide_eq_true_eq] at hkey
    have hsame : found = row :=
      hdistinct.eq_of_seq_eq (mem_of_find?_eq_some hfound) hrow hkey
    simp [start, hfound, hsame]
  steady_row k hk := by
    obtain ⟨row, hrow, hkey⟩ := any_eq_true.mp hk
    exact ⟨row, hrow, decide_eq_true_eq.mp hkey⟩
  got_home _ _ h := nomatch h
  cursor_got _ _ h := nomatch h
  ahead _ _ _ _ := .inr ⟨fun _ h => (nomatch h), fun h => nomatch h⟩
  accepted _ h := nomatch h

variable {k : κ}

theorem AtHome.remove (h : AtHome total s) (hk : s.steady k = false) :
    AtHome total (s.remove k) where
  distinct := h.distinct.filter _
  rows_home row hrow := h.rows_home row (mem_filter.mp hrow).1
  steady_row k' hk' := by
    obtain ⟨row, hrow, rfl⟩ := h.steady_row k' hk'
    refine ⟨row, mem_filter.mpr ⟨hrow, decide_eq_true fun heq => ?_⟩, rfl⟩
    have hk'' : s.steady row.key = true := hk'
    rw [heq, hk] at hk''
    cases hk''
  got_home := h.got_home
  cursor_got := h.cursor_got
  ahead := h.ahead
  accepted := h.accepted

theorem AtHome.lose (h : AtHome total s) (k) : AtHome total (s.lose k) := by
  have hsteady : ∀ k', (s.lose k).steady k' = true → s.steady k' = true := by
    intro k' hk'
    by_cases heq : k' = k
    · subst heq
      simp [ParallelState.lose] at hk'
    · simpa [ParallelState.lose, update_of_ne heq] using hk'
  exact ⟨h.distinct, h.rows_home, fun k' hk' => h.steady_row k' (hsteady k' hk'), h.got_home,
    h.cursor_got, fun segment k' hk' => h.ahead segment k' (hsteady k' hk'), h.accepted⟩

/-- A row comes for a key without one, into the segment of the key's last row; the key may have been
steady until its row was taken out. -/
theorem AtHome.insert {rowid} (h : AtHome total s)
    (hrowid : ∀ home, s.home k = some home → rowid % total = home) :
    AtHome total ((s.remove k).insert total k rowid) := by
  have hhome : ∀ k' home, s.home k' = some home →
      ((s.remove k).insert total k rowid).home k' = some home := by
    intro k' home hk'
    by_cases heq : k' = k
    · subst heq
      simp [insert, hrowid home hk']
    · simp [ParallelState.insert, ParallelState.remove, update_of_ne heq, hk']
  refine ⟨?_, ?_, ?_, ?_, h.cursor_got, ?_, h.accepted⟩
  · refine pairwise_cons.mpr ⟨fun row hrow heq => ?_, h.distinct.filter _⟩
    exact decide_eq_true_eq.mp (mem_filter.mp hrow).2 heq.symm
  · intro row hrow
    rcases mem_cons.mp hrow with rfl | hrow
    · simp [ParallelState.insert]
    · exact hhome row.key _ (h.rows_home row (mem_filter.mp hrow).1)
  · intro k' hk'
    obtain ⟨row, hrow, rfl⟩ := h.steady_row k' hk'
    by_cases heq : row.key = k
    · exact ⟨⟨rowid, k⟩, .head _, heq.symm⟩
    · exact ⟨row, .tail _ (mem_filter.mpr ⟨hrow, decide_eq_true heq⟩), rfl⟩
  · intro segment k' hk'
    exact hhome k' segment (h.got_home segment k' hk')
  · intro segment k' hk' hk''
    obtain ⟨row, hrow, rfl⟩ := h.steady_row k' hk'
    have hold := h.rows_home row hrow
    have hnew := hhome row.key _ hold
    rw [hk''] at hnew
    exact h.ahead segment row.key hk' (hold.trans hnew.symm)

theorem remove_of_absent (h : s.rows.any (fun row => row.key = k) = false) : s.remove k = s := by
  have hrows : s.rows.filter (fun row => row.key ≠ k) = s.rows := by
    rw [filter_eq_self]
    intro row hrow
    have := any_eq_false.mp h row hrow
    simpa using this
  unfold remove
  rw [hrows]

abbrev nextPage (s : ParallelState κ) (total segment taken : ℕ) : List (TableRow κ) :=
  page TableRow.key (s.segmentRows total segment) (s.scans segment).cursor taken

def advance (s : ParallelState κ) (total segment taken : ℕ) (phase : SegmentPhase) :
    ParallelState κ :=
  let rows := page TableRow.key (s.segmentRows total segment) (s.scans segment).cursor taken
  s.setScan segment {
    phase := phase
    cursor := (rows.getLast?.map TableRow.key).or (s.scans segment).cursor
    got := (s.scans segment).got ++ rows.map TableRow.key }

theorem advance_zero (total segment) (phase) :
    s.advance total segment 0 phase = s.setScan segment { s.scans segment with phase } := by
  simp [advance, page]

variable {phase : SegmentPhase} {segment : ℕ} {taken : ℕ}

theorem advance_scans_ne {segment'} (h : segment' ≠ segment) :
    (s.advance total segment taken phase).scans segment' = s.scans segment' := by
  simp [advance, setScan, update_of_ne h]

theorem advance_scans_self : (s.advance total segment taken phase).scans segment = ⟨phase,
        (((s.nextPage total segment taken).getLast?).map TableRow.key).or (s.scans segment).cursor,
        (s.scans segment).got ++ (s.nextPage total segment taken).map TableRow.key⟩ := by
  simp [advance, setScan]

theorem AtHome.page_or_above (h : AtHome total s) {row} (hrow : row ∈ s.segmentRows total segment)
    (habove : Above (s.scans segment).cursor row.key) :
    row ∈ s.nextPage total segment taken ∨
    Above ((((s.nextPage total segment taken).getLast?).map TableRow.key).or
      (s.scans segment).cursor) row.key := by
  by_cases hmem : row ∈ s.nextPage total segment taken
  · exact .inl hmem
  right
  have hlt := lt_of_not_mem_page (r := ⟨(s.scans segment).cursor, []⟩)
    (h.distinct.filter _) hrow habove hmem
  cases hlast : (s.nextPage total segment taken).getLast? with
  | none => simpa [hlast] using habove
  | some last =>
    intro c hc
    simp only [map_some, some_or, some.injEq] at hc
    subst hc
    exact hlt last (mem_of_getLast? hlast)

theorem AtHome.advance (h : AtHome total s) (hrefused : phase ≠ .refused)
    (hdone : phase = .done → ∀ row ∈ s.segmentRows total segment,
      Above (s.scans segment).cursor row.key → row ∈ s.nextPage total segment taken) :
    AtHome total (s.advance total segment taken phase) := by
  refine ⟨h.distinct, h.rows_home, h.steady_row, ?_, ?_, ?_, ?_⟩
  all_goals intro segment'
  all_goals by_cases heq : segment' = segment
  -- the other segments are as they were
  all_goals try rw [advance_scans_ne heq]
  all_goals try subst heq; rw [advance_scans_self]
  · intro k hk
    rcases mem_append.mp hk with hk | hk
    · exact h.got_home segment' k hk
    obtain ⟨row, hrow, rfl⟩ := mem_map.mp hk
    have hmem := (mem_page (r := ⟨(s.scans segment').cursor, []⟩) hrow).1
    obtain ⟨hrows, hsegment⟩ := mem_filter.mp hmem
    have hhome := h.rows_home row hrows
    rw [decide_eq_true_eq.mp hsegment] at hhome
    exact hhome
  · exact h.got_home segment'
  · intro k hk
    cases hlast : (page TableRow.key (s.segmentRows total segment') (s.scans segment').cursor
        taken).getLast? with
    | none =>
      rw [hlast] at hk
      exact mem_append_left _ (h.cursor_got segment' k hk)
    | some last =>
      rw [hlast] at hk
      simp only [map_some, some_or, some.injEq] at hk
      exact mem_append_right _ (mem_map.mpr ⟨last, mem_of_getLast? hlast, hk⟩)
  · exact h.cursor_got segment'
  · intro k hk hhome
    rcases h.ahead segment' k hk hhome with hgot | ⟨habove, -⟩
    · exact .inl (mem_append_left _ hgot)
    obtain ⟨row, hrow, rfl⟩ := h.steady_row k hk
    have hsegment : row ∈ s.segmentRows total segment' := by
      refine mem_filter.mpr ⟨hrow, decide_eq_true ?_⟩
      exact some.inj ((h.rows_home row hrow).symm.trans hhome)
    -- a page that ends the segment has every row above the cursor
    by_cases hphase : phase = .done
    · exact .inl (mem_append_right _ (mem_map_of_mem (hdone hphase row hsegment habove)))
    · rcases h.page_or_above hsegment habove with hpage | hlater
      · exact .inl (mem_append_right _ (mem_map_of_mem hpage))
      · exact .inr ⟨hlater, hphase⟩
  · exact h.ahead segment'
  · exact hrefused
  · exact h.accepted segment'

theorem lose_steady_self (k) : (s.lose k).steady k = false := by
  simp [lose]

theorem remove_remove (k) : (s.remove k).remove k = s.remove k := by
  simp [remove]

theorem AtHome.keyInSegment (h : AtHome total s)
    (hcursor : (s.scans segment).cursor = some k) : s.keyInSegment total segment k = true := by
  have hhome := h.got_home segment k (h.cursor_got segment k hcursor)
  unfold ParallelState.keyInSegment
  cases hfound : s.rows.find? (fun row => row.key = k) with
  | none => rfl
  | some row =>
    have hkey := find?_some hfound
    simp only [decide_eq_true_eq] at hkey
    have hrow := h.rows_home row (mem_of_find?_eq_some hfound)
    rw [hkey, hhome] at hrow
    exact beq_iff_eq.mpr (some.inj hrow).symm

variable {s' : ParallelState κ}

theorem step_read {index count full}
    (hstep : s.step total index (.read segment count taken full) = some s') :
    ∃ phase, phase ≠ .refused ∧ s' = s.advance total segment taken phase ∧
      (phase = .done → ∀ row ∈ s.segmentRows total segment,
        Above (s.scans segment).cursor row.key → row ∈ s.nextPage total segment taken) := by
  obtain ⟨⟨-, -, htaken, -, hfull⟩, hs'⟩ := ite_none_right_eq_some.mp hstep
  cases hs'
  rw [length_take] at htaken hfull
  have hpage : (s.nextPage total segment (count + 1)).take taken =
      s.nextPage total segment taken := by
    rw [nextPage, nextPage, page, page, take_take, Nat.min_eq_left (by omega)]
  rw [hpage]
  refine ⟨_, ?_, rfl, ?_⟩
  · cases full
    · simp only [Bool.false_eq_true, if_false]
      split <;> exact SegmentPhase.noConfusion
    · exact SegmentPhase.noConfusion
  · intro hphase row hrow habove
    cases full with
    | true => cases hphase
    | false =>
      -- the segment ends when the extra row is not there, so the page took all that is above
      have hshort : (s.nextPage total segment (count + 1)).length ≤ count := by
        by_contra hlong
        rw [if_neg hlong] at hphase
        cases hphase
      have hall := hfull rfl
      rw [nextPage, page, length_take] at hshort
      rw [page, length_take] at hall
      rw [nextPage, page, take_of_length_le (by omega)]
      exact mem_rowsAbove.mpr ⟨hrow, habove⟩

theorem AtHome.deleteOld (h : AtHome total s) (old new) :
    ∃ t : ParallelState κ, AtHome total t ∧ t.home = s.home ∧
      (new = none → s.deleteOld old new = t) ∧
      ∀ k, new = some k → (s.deleteOld old new).remove k = t.remove k := by
  cases old with
  | none => exact ⟨s, h, rfl, fun _ => rfl, fun _ _ => rfl⟩
  | some k =>
    by_cases hsame : new = some k
    · subst hsame
      refine ⟨s, h, rfl, fun hnone => (nomatch hnone), fun k' hk' => ?_⟩
      cases hk'
      simp [ParallelState.deleteOld, remove_remove]
    · have hgone := (h.lose k).remove (lose_steady_self k)
      refine ⟨_, hgone, rfl, fun _ => ?_, fun k' _ => ?_⟩
      all_goals
        simp only [ParallelState.deleteOld, if_neg hsame]
        rfl

theorem AtHome.step {index e} (h : AtHome total s) (hstay : StaysHome total s e)
    (hstep : s.step total index e = some s') : AtHome total s' := by
  cases e with
  | put k rowid =>
    simp only [ParallelState.step] at hstep
    split at hstep
    · cases hstep
    split at hstep
    · cases hstep
      exact h
    rename_i habsent
    have habsent' := Bool.eq_false_iff.mpr habsent
    split at hstep
    · cases hstep
      have hinsert := h.insert (hstay habsent')
      rw [remove_of_absent habsent'] at hinsert
      exact hinsert
    · cases hstep
  | delete k =>
    simp only [ParallelState.step] at hstep
    split at hstep
    · cases hstep
    · cases hstep
      exact (h.lose k).remove (lose_steady_self k)
  | sync old new rowid =>
    simp only [ParallelState.step] at hstep
    split at hstep
    · cases hstep
    obtain ⟨t, ht, hhome, hnone, hsome⟩ := h.deleteOld old new
    cases new with
    | none =>
      cases hstep
      rw [hnone rfl]
      exact ht
    | some k =>
      obtain ⟨-, hs'⟩ := ite_none_right_eq_some.mp hstep
      cases hs'
      rw [hsome k rfl]
      refine ht.insert fun home hk => hstay home ?_
      rw [← hhome]
      exact hk
  | request segment =>
    simp only [ParallelState.step] at hstep
    have hgoes : AtHome total (s.setScan segment { s.scans segment with phase := .reading }) := by
      rw [← advance_zero total]
      exact h.advance SegmentPhase.noConfusion SegmentPhase.noConfusion
    split at hstep
    · cases hstep
      exact hgoes
    · split at hstep
      · rename_i k hcursor
        rw [if_pos (h.keyInSegment hcursor)] at hstep
        cases hstep
        exact hgoes
      · cases hstep
    · cases hstep
  | read segment count taken full =>
    obtain ⟨phase, hrefused, rfl, hdone⟩ := step_read hstep
    exact h.advance hrefused hdone

/-- While no write moves a key to another segment, every key a segment returned is accepted when it
is asked to go on, and once all segments are read every key that was there throughout has been
returned by one of them. -/
theorem parallel_scan_stable (total : ℕ) (htotal : 0 < total) (index : Bool)
    (rows : List (TableRow κ)) (hdistinct : Distinct TableRow.key rows) (s : ParallelState κ)
    (hrun : EventRun.Reaches (step total index) (StaysHome total) (start total rows) s) :
    (∀ segment, (s.scans segment).phase ≠ .refused ∧
      ∀ k, (s.scans segment).cursor = some k → s.keyInSegment total segment k = true) ∧
    ((∀ segment < total, (s.scans segment).phase = .done) →
      ∀ k, s.steady k = true → ∃ segment < total, k ∈ (s.scans segment).got) := by
  have h : AtHome total s :=
    hrun.keeps (fun _ _ _ hstay hstep hs => hs.step hstay hstep) (atHome_start hdistinct)
  refine ⟨fun segment => ⟨h.accepted segment, fun k => h.keyInSegment⟩, fun hdone k hk => ?_⟩
  obtain ⟨row, hrow, rfl⟩ := h.steady_row k hk
  have hsegment : row.rowid % total < total := Nat.mod_lt _ htotal
  refine ⟨row.rowid % total, hsegment, ?_⟩
  rcases h.ahead _ row.key hk (h.rows_home row hrow) with hgot | ⟨-, hopen⟩
  · exact hgot
  · exact absurd (hdone _ hsegment) hopen

/-- Two segments with a resumed page, an upsert of a row already read and a new row between. -/
theorem parallel_scan_stable_resumed : ∃ s : ParallelState ℕ,
      ((∀ segment, (s.scans segment).phase ≠ .refused ∧
        ∀ k, (s.scans segment).cursor = some k → s.keyInSegment 2 segment k = true) ∧
      ((∀ segment < 2, (s.scans segment).phase = .done) →
        ∀ k, s.steady k = true → ∃ segment < 2, k ∈ (s.scans segment).got)) ∧
      (∀ segment < 2, (s.scans segment).phase = .done) ∧ s.steady 10 = true := by
  have hadmits : EventRun.Admits (step 2 false) (StaysHome 2) (start 2 [⟨1, 10⟩, ⟨2, 20⟩, ⟨3, 30⟩])
      [.request 1, .read 1 1 1 true, .put 10 4, .put 40 4, .request 1, .read 1 5 1 false,
        .request 0, .read 0 5 2 false] := by
    refine .cons trivial rfl (.cons trivial rfl (.cons ?_ rfl (.cons ?_ rfl (.cons trivial rfl
      (.cons trivial rfl (.cons trivial rfl (.cons trivial rfl trivial)))))))
    · exact fun hnone => absurd hnone (by decide)
    · intro _ home hhome
      have hnone : (none : Option ℕ) = some home := hhome
      cases hnone
  refine ⟨_, parallel_scan_stable 2 (by decide) false _ (by unfold Distinct; decide) _
    (.of_admits hadmits rfl), ?_, rfl⟩
  intro segment hsegment
  interval_cases segment <;> rfl

/-- A base item deleted and put again between two pages has its key refused; an index row rewritten
with the same key moves to a segment that was already read. -/
theorem parallel_scan_moved_row :
    (∃ s : ParallelState ℕ, EventRun.Reaches (step 2 false) EventRun.Anything
      (start 2 [⟨2, 20⟩, ⟨4, 40⟩]) s ∧ (s.scans 0).phase = .refused) ∧
    (∃ s : ParallelState ℕ, EventRun.Reaches (step 2 true) EventRun.Anything
      (start 2 [⟨1, 10⟩, ⟨2, 20⟩, ⟨3, 30⟩]) s ∧ (∀ segment < 2, (s.scans segment).phase = .done) ∧
      s.steady 10 = true ∧ ∀ segment < 2, 10 ∉ (s.scans segment).got) := by
  constructor
  · exact ⟨_, .of_run [.request 0, .read 0 1 1 true, .delete 20, .put 20 5, .request 0] rfl, rfl⟩
  · refine ⟨_, .of_run [.request 0, .read 0 5 1 false,
      .sync (some 10) (some 10) 4, .request 1, .read 1 5 1 false] rfl, ?_, rfl, ?_⟩
    · intro segment hsegment
      interval_cases segment <;> rfl
    · intro segment hsegment
      interval_cases segment <;> decide

end ParallelState

end ExtendDb.Sqlite
