import ExtendDb.Cassandra.BaseScan
import ExtendDb.Cassandra.IndexRows

/-!
# Backfill of an index

The backfill of a new index reads the base table in pages of a fixed number of rows and goes on with
the partitions whose token is larger than that of the last row.  A partition that a page cuts is not
finished.
-/

namespace ExtendDb.Cassandra

open NumberedLog LastWrite Fallible List Function Option Nat

def backfillPageSize : ℕ := 500

variable {ς : Type}

section

variable [LinearOrder ς] (setup : ScanSetup ς) (rows : List (PhysicalRow ς)) (bd : BigDecimalCrate)
  (base64 : Base64Engine) (idx : SyncIndex) (stamp : PhysicalRow ς → ℤ)

def backfillRow (row : PhysicalRow ς) : Except StorageError (List (Stamped IndexRowKey Item)) :=
  match row.item with
  -- `get_column` of a null
  | none => .error (.internal "Database error")
  | some item =>
    if itemHasIndexKeys item idx.keySchema then do
      let key ← indexRowKey bd base64 idx item
      pure [⟨key, stamp row, some (projectItemForIndex item idx.keySchema idx.baseKeySchema
        idx.projection)⟩]
    else pure []

def backfillBatch (page : List (PhysicalRow ς)) :
    Except StorageError (List (Stamped IndexRowKey Item)) :=
  flatten <$> page.mapM (backfillRow bd base64 idx stamp)

/-- The rows whose token is larger than the last one read. -/
def unread (lastToken : Option ℤ) : List (PhysicalRow ς) :=
  rowsAbove (scanKey setup) (rows.filter fun row => lastToken.all (· < setup.token row.pk)) none

/-- The loop of `backfill_gsi` and the statements it executes. -/
def backfillGsi : ℕ → Option ℤ → Option (Except StorageError (List (Stamped IndexRowKey Item)))
  | 0, _ => none
  | fuel + 1, lastToken =>
    let page := (unread setup rows lastToken).take backfillPageSize
    if page.isEmpty then some (.ok [])
    else match backfillBatch bd base64 idx stamp page with
    | .error e => some (.error e)
    | .ok batch =>
      if page.length < backfillPageSize then some (.ok batch)
      else match page.getLast? with
        | none => some (.ok batch)
        | some last =>
          let token := setup.token last.pk
          if some token = lastToken then some (.ok batch)
          else (backfillGsi fuel (some token)).map fun later => (batch ++ ·) <$> later

end

/-! ## Pages -/

/-- No page ends inside a partition. -/
def PagesWhole {ς : Type} (rows : List (PhysicalRow ς)) : Prop :=
  ∀ k a b, rows[backfillPageSize * (k + 1) - 1]? = some a →
    rows[backfillPageSize * (k + 1)]? = some b → a.pk ≠ b.pk

theorem PagesWhole.drop {rows : List (PhysicalRow ς)} (h : PagesWhole rows) :
    PagesWhole (rows.drop backfillPageSize) := by
  intro k a b ha hb
  rw [getElem?_drop] at ha hb
  have hlast : backfillPageSize * (k + 1 + 1) - 1 =
      backfillPageSize + (backfillPageSize * (k + 1) - 1) := by
    simp only [backfillPageSize]
    omega
  exact h (k + 1) a b (by rw [hlast]; exact ha) (by rw [mul_succ, add_comm]; exact hb)

theorem pagesWhole_of_drop {rows : List (PhysicalRow ς)}
    (hfirst : ∀ a b, rows[backfillPageSize - 1]? = some a → rows[backfillPageSize]? = some b →
      a.pk ≠ b.pk) (h : PagesWhole (rows.drop backfillPageSize)) : PagesWhole rows := by
  intro k a b ha hb
  cases k with
  | zero => exact hfirst a b ha hb
  | succ k =>
    refine h k a b ?_ ?_ <;> rw [getElem?_drop]
    · rwa [show backfillPageSize + (backfillPageSize * (k + 1) - 1) =
        backfillPageSize * (k + 1 + 1) - 1 by simp only [backfillPageSize]; omega]
    · rwa [add_comm, ← mul_succ]

variable {bd : BigDecimalCrate} {base64 : Base64Engine} {idx : SyncIndex}
  {stamp : PhysicalRow ς → ℤ} {row : PhysicalRow ς}

section

variable [LinearOrder ς] {setup : ScanSetup ς} {t : PhysicalTable setup} {lastToken : Option ℤ}

theorem mem_unread : row ∈ unread setup t.rows lastToken ↔
    row ∈ t.rows ∧ ∀ token, lastToken = some token → token < setup.token row.pk := by
  rw [unread, mem_rowsAbove]
  cases lastToken <;> simp [Above]

theorem sorted_unread (t : PhysicalTable setup) (lastToken) :
    (unread setup t.rows lastToken).Pairwise fun a b => scanKey setup a < scanKey setup b :=
  sorted_above (t.distinct_scanKey.filter _) none

theorem token_le {a b} (h : scanKey setup a < scanKey setup b) :
    setup.token a.pk ≤ setup.token b.pk := by
  rcases scanKey_lt.mp h with h | h
  · exact le_of_lt h
  · exact le_of_eq h.1

/-- Behind a page that ends with its partition are the rows not read yet. -/
theorem unread_last {read rest last} (hrows : unread setup t.rows lastToken = read ++ last :: rest)
    (hwhole : ∀ next, rest.head? = some next → last.pk ≠ next.pk) :
    unread setup t.rows (some (setup.token last.pk)) = rest := by
  have hsorted := sorted_unread t lastToken
  rw [hrows] at hsorted
  obtain ⟨-, htail, hbefore⟩ := pairwise_append.mp hsorted
  obtain ⟨hbehind, hrest⟩ := pairwise_cons.mp htail
  have hmem : ∀ r, r ∈ read ++ last :: rest → r ∈ t.rows ∧
      ∀ token, lastToken = some token → token < setup.token r.pk := by
    intro r hr
    rw [← hrows] at hr
    exact mem_unread.mp hr
  have hlast := hmem last (by simp)
  have hstart : ∀ r ∈ rest, setup.token last.pk < setup.token r.pk := by
    cases rest with
    | nil => exact fun r hr => nomatch hr
    | cons next later =>
      have hnext := token_le (hbehind next (.head _))
      have hlt : setup.token last.pk < setup.token next.pk := lt_of_le_of_ne hnext fun heq =>
        hwhole next rfl (t.tokens last hlast.1 next (hmem next (by simp)).1 heq)
      intro r hr
      rcases mem_cons.mp hr with rfl | hr
      · exact hlt
      · exact lt_of_lt_of_le hlt (token_le (rel_of_pairwise_cons hrest hr))
  refine rowsAbove_eq (t.distinct_scanKey.filter _) hrest fun r => ?_
  have hunread : r ∈ unread setup t.rows (some (setup.token last.pk)) ↔ _ := mem_unread
  rw [unread, mem_rowsAbove] at hunread
  rw [hunread]
  refine ⟨fun hr => ⟨(hmem r (by simp [hr])).1, fun token htoken => ?_⟩, fun ⟨hr, htoken⟩ => ?_⟩
  · cases htoken
    exact hstart r hr
  have hlt := htoken _ rfl
  have hr' : r ∈ read ++ last :: rest := by
    rw [← hrows]
    exact mem_unread.mpr ⟨hr, fun token h => lt_trans (hlast.2 token h) hlt⟩
  rcases mem_append.mp hr' with hread | hlater
  · exact absurd hlt (not_lt_of_ge (token_le (hbefore r hread last (.head _))))
  · rcases mem_cons.mp hlater with rfl | hlater
    · exact absurd hlt (lt_irrefl _)
    · exact hlater

omit [LinearOrder ς] in
theorem backfillBatch_append (page rest) : backfillBatch bd base64 idx stamp (page ++ rest) =
      (backfillBatch bd base64 idx stamp page).bind fun batch =>
        (batch ++ ·) <$> backfillBatch bd base64 idx stamp rest := by
  simp only [backfillBatch, mapM_append]
  cases page.mapM (backfillRow bd base64 idx stamp) with
  | error e => rfl
  | ok batch => cases rest.mapM (backfillRow bd base64 idx stamp) with
    | error e => rfl
    | ok later => exact congrArg Except.ok flatten_append

omit [LinearOrder ς] in
theorem exists_page (rows : List (PhysicalRow ς)) (h : backfillPageSize ≤ rows.length) :
    ∃ read last, read.length + 1 = backfillPageSize ∧
      rows = read ++ last :: rows.drop backfillPageSize := by
  have hlength : (rows.take backfillPageSize).length = backfillPageSize := by
    rw [length_take]
    omega
  have hne : rows.take backfillPageSize ≠ [] := by
    intro hnil
    rw [hnil] at hlength
    cases hlength
  refine ⟨(rows.take backfillPageSize).dropLast, (rows.take backfillPageSize).getLast hne, ?_, ?_⟩
  · rw [length_dropLast, hlength]
    rfl
  · rw [append_cons, dropLast_append_getLast hne, take_append_drop]

/-- A page that is not full is the last one. -/
theorem backfillGsi_short (h : (unread setup t.rows lastToken).length < backfillPageSize) (fuel) :
    backfillGsi setup t.rows bd base64 idx stamp (fuel + 1) lastToken =
      some (backfillBatch bd base64 idx stamp (unread setup t.rows lastToken)) := by
  rw [backfillGsi, take_of_length_le (le_of_lt h)]
  generalize unread setup t.rows lastToken = rows at h ⊢
  cases rows with
  | nil => rfl
  | cons row rows =>
    cases backfillBatch bd base64 idx stamp (row :: rows) with
    | error e => rfl
    | ok batch => simp only [isEmpty_cons, Bool.false_eq_true, if_false, h, if_true]

theorem backfillGsi_full {read rest last}
    (hrows : unread setup t.rows lastToken = read ++ last :: rest)
    (hread : read.length + 1 = backfillPageSize) (fuel) :
    backfillGsi setup t.rows bd base64 idx stamp (fuel + 1) lastToken =
      match backfillBatch bd base64 idx stamp (read ++ [last]) with
      | .error e => some (.error e)
      | .ok batch => (backfillGsi setup t.rows bd base64 idx stamp fuel
          (some (setup.token last.pk))).map fun later => (batch ++ ·) <$> later := by
  have hpage : (unread setup t.rows lastToken).take backfillPageSize = read ++ [last] := by
    rw [hrows, append_cons]
    exact take_left' (by simpa using hread)
  have hnonempty : (read ++ [last]).isEmpty = false := by simp
  have hlast : last ∈ unread setup t.rows lastToken := by
    rw [hrows]
    simp
  have hnew : some (setup.token last.pk) ≠ lastToken := fun heq =>
    lt_irrefl _ ((mem_unread.mp hlast).2 _ heq.symm)
  rw [backfillGsi, hpage]
  simp [hread, hnew]

/-- The pages together are one batch of the rows not read yet. -/
theorem backfillGsi_eq (fuel : ℕ) (hfuel : (unread setup t.rows lastToken).length < fuel)
    (hwhole : PagesWhole (unread setup t.rows lastToken)) :
    backfillGsi setup t.rows bd base64 idx stamp fuel lastToken =
      some (backfillBatch bd base64 idx stamp (unread setup t.rows lastToken)) := by
  induction fuel generalizing lastToken with
  | zero => exact absurd hfuel (not_lt_zero _)
  | succ fuel ih =>
    by_cases hfull : backfillPageSize ≤ (unread setup t.rows lastToken).length
    · obtain ⟨read, last, hread, hsplit⟩ := exists_page _ hfull
      have hrest := unread_last hsplit fun next hnext => hwhole 0 last next
        (by rw [hsplit, getElem?_append_right (by omega)]
            simp [← hread])
        (by rw [← hnext, head?_drop]
            simp)
      have hlater := @ih (some (setup.token last.pk))
        (by rw [hrest, length_drop]; omega) (by rw [hrest]; exact hwhole.drop)
      rw [hrest] at hlater
      have hbatch : backfillBatch bd base64 idx stamp (read ++ [last] ++
          (unread setup t.rows lastToken).drop backfillPageSize) = _ := backfillBatch_append _ _
      rw [← append_cons, ← hsplit] at hbatch
      rw [backfillGsi_full hsplit hread, hlater, hbatch]
      cases backfillBatch bd base64 idx stamp (read ++ [last]) <;> rfl
    · exact backfillGsi_short (Nat.lt_of_not_le hfull) fuel

end

/-! ## The rows of the index -/

section

variable [LinearOrder ς] {setup : ScanSetup ς} {t : PhysicalTable setup}
  {rows : List (PhysicalRow ς)}

def rowInIndex (bd : BigDecimalCrate) (base64 : Base64Engine) (idx : SyncIndex)
    (row : PhysicalRow ς) : Option (IndexRowKey × Item) :=
  indexRow bd base64 idx row.item

def indexInserts (bd : BigDecimalCrate) (base64 : Base64Engine) (idx : SyncIndex)
    (stamp : PhysicalRow ς → ℤ) (rows : List (PhysicalRow ς)) : List (Stamped IndexRowKey Item) :=
  rows.flatMap fun row =>
    ((rowInIndex bd base64 idx row).map fun e => ⟨e.1, stamp row, some e.2⟩).toList

variable {key : IndexRowKey}

omit [LinearOrder ς] in
theorem rowInIndex_eq {item} (hitem : row.item = some item)
    (hkeys : itemHasIndexKeys item idx.keySchema = true)
    (hkey : indexRowKey bd base64 idx item = .ok key) :
    rowInIndex bd base64 idx row = some (key, projectItemForIndex item idx.keySchema
      idx.baseKeySchema idx.projection) := by
  simp [rowInIndex, indexRow, hitem, Option.filter, hkeys, hkey]

omit [LinearOrder ς] in
theorem backfillRow_eq (hbd : bd.Documented) (hbase64 : Injective base64.encode) {item}
    (hitem : row.item = some item) (hvalid : ValidImage idx item) :
    backfillRow bd base64 idx stamp row =
      .ok ((rowInIndex bd base64 idx row).map fun e => ⟨e.1, stamp row, some e.2⟩).toList := by
  by_cases hkeys : itemHasIndexKeys item idx.keySchema = true
  · obtain ⟨key, hkey⟩ := indexRowKey_ok hbd hbase64 hvalid hkeys
    rw [rowInIndex_eq hitem hkeys hkey, backfillRow, hitem]
    simp only [hkeys, hkey]
    rfl
  · simp only [backfillRow, rowInIndex, indexRow, hitem, Option.filter, hkeys]
    rfl

omit [LinearOrder ς] in
theorem backfillBatch_eq (hbd : bd.Documented) (hbase64 : Injective base64.encode) (rows)
    (hrows : ∀ row ∈ rows, ∃ item, row.item = some item ∧ ValidImage idx item) :
    backfillBatch bd base64 idx stamp rows = .ok (indexInserts bd base64 idx stamp rows) := by
  rw [backfillBatch]
  have hmap : rows.mapM (backfillRow bd base64 idx stamp) = .ok (rows.map fun row =>
      ((rowInIndex bd base64 idx row).map fun e => ⟨e.1, stamp row, some e.2⟩).toList) := by
    induction rows with
    | nil => rfl
    | cons row rows ih =>
      obtain ⟨item, hitem, hvalid⟩ := hrows row (.head _)
      rw [mapM_cons, backfillRow_eq hbd hbase64 hitem hvalid, ih fun r hr => hrows r (.tail _ hr)]
      rfl
  rw [hmap]
  rfl

theorem extractKey_congr {keySchema old new} (h : AgreeOn keySchema old new) :
    extractKey old keySchema = extractKey new keySchema :=
  foldl_ext _ _ _ fun key ks hks => by rw [h ks hks]

/-- Different rows of the table have index rows under different keys. -/
theorem eq_of_rowInIndex (hbd : bd.Documented) (hbase64 : Injective base64.encode)
    (hschema : setup.keySchema = idx.baseKeySchema)
    (hvalid : ∀ row ∈ t.rows, ∀ item, row.item = some item → ValidImage idx item) {row'}
    (hrow : row ∈ t.rows) (hrow' : row' ∈ t.rows) {v v'}
    (h : rowInIndex bd base64 idx row = some (key, v))
    (h' : rowInIndex bd base64 idx row' = some (key, v')) : row = row' := by
  have hindexed : ∀ {r : PhysicalRow ς} {w : Item}, rowInIndex bd base64 idx r = some (key, w) →
      ∃ item, r.item = some item ∧ itemHasIndexKeys item idx.keySchema = true ∧
        indexRowKey bd base64 idx item = .ok key := by
    intro r w hr
    simp only [rowInIndex, indexRow, bind_eq_some_iff, filter_eq_some_iff] at hr
    obtain ⟨item, ⟨hitem, hkeys⟩, hkey⟩ := hr
    split at hkey
    · rename_i hok
      cases hkey
      exact ⟨item, hitem, hkeys, hok⟩
    · cases hkey
  obtain ⟨item, hitem, hkeys, hkey⟩ := hindexed h
  obtain ⟨item', hitem', hkeys', hkey'⟩ := hindexed h'
  obtain ⟨k, k', hk, hk', heq⟩ := indexRowKey_eq_iff hbd hbase64 (hvalid row hrow item hitem)
    (hvalid row' hrow' item' hitem') hkeys hkeys'
  have hsame : k = k' := Except.ok.inj ((hk.symm.trans hkey).trans (hkey'.symm.trans hk'))
  have hkeyEq := extractKey_congr (sameIndexRow_iff.mp (heq.mp hsame)).2
  obtain ⟨hpk, hsk⟩ := t.keyed row hrow item hitem
  obtain ⟨hpk', hsk'⟩ := t.keyed row' hrow' item' hitem'
  rw [hschema, hkeyEq] at hpk hsk
  rw [hschema] at hpk' hsk'
  exact t.distinct_scanKey.eq_of_seq_eq hrow hrow' (by
    rw [scanKey, scanKey, Except.ok.inj (hpk.symm.trans hpk'), Except.ok.inj (hsk.symm.trans hsk')])

end

section

variable [LinearOrder ς] {setup : ScanSetup ς} {t : PhysicalTable setup}

/-- A backfill of valid items inserts rows of the table, and misses one where a page ends inside a
partition. -/
theorem backfillGsi_kept (hbd : bd.Documented) (hbase64 : Injective base64.encode)
    (hrows : ∀ row ∈ t.rows, ∃ item, row.item = some item ∧ ValidImage idx item) (fuel) {lastToken}
    (hfuel : (unread setup t.rows lastToken).length < fuel) :
    ∃ kept, kept ⊆ unread setup t.rows lastToken ∧
      backfillGsi setup t.rows bd base64 idx stamp fuel lastToken =
        some (.ok (indexInserts bd base64 idx stamp kept)) ∧
      (¬ PagesWhole (unread setup t.rows lastToken) →
        ∃ lost ∈ unread setup t.rows lastToken, lost ∉ kept) := by
  have hbatch (rows) (hsubset : rows ⊆ unread setup t.rows lastToken) :
      backfillBatch bd base64 idx stamp rows = .ok (indexInserts bd base64 idx stamp rows) :=
    backfillBatch_eq hbd hbase64 rows fun row hrow => hrows row (mem_unread.mp (hsubset hrow)).1
  induction fuel generalizing lastToken with
  | zero => exact absurd hfuel (not_lt_zero _)
  | succ fuel ih =>
    by_cases hfull : backfillPageSize ≤ (unread setup t.rows lastToken).length
    · obtain ⟨read, last, hread, hsplit⟩ := exists_page _ hfull
      generalize hdrop : (unread setup t.rows lastToken).drop backfillPageSize = rest at hsplit
      have hpages : unread setup t.rows lastToken = read ++ [last] ++ rest := by
        rw [hsplit, append_cons]
      have hsorted := sorted_unread t lastToken
      rw [hpages] at hsorted
      have hbehind := (pairwise_append.mp hsorted).2.2
      have hpage : read ++ [last] ⊆ unread setup t.rows lastToken :=
        hpages ▸ subset_append_left _ _
      have hrest : rest ⊆ unread setup t.rows lastToken := hpages ▸ subset_append_right _ _
      have hlater : unread setup t.rows (some (setup.token last.pk)) ⊆ rest := fun row hrow => by
        obtain ⟨hrow, htoken⟩ := mem_unread.mp hrow
        have hlast := (mem_unread.mp (hpage (mem_append_right _ (mem_singleton_self last)))).2
        have hunread : row ∈ unread setup t.rows lastToken :=
          mem_unread.mpr ⟨hrow, fun token h => lt_trans (hlast token h) (htoken _ rfl)⟩
        rw [hpages] at hunread
        refine (mem_append.mp hunread).resolve_left fun hread => ?_
        rcases mem_append.mp hread with hread | hread
        · have hlt := (pairwise_append.mp (pairwise_append.mp hsorted).1).2.2 row hread last (.head _)
          exact absurd (htoken _ rfl) (not_lt_of_ge (token_le hlt))
        · rw [mem_singleton.mp hread] at htoken
          exact lt_irrefl _ (htoken _ rfl)
      have hshorter : (unread setup t.rows (some (setup.token last.pk))).length < fuel := by
        have hnodup : (unread setup t.rows (some (setup.token last.pk))).Nodup :=
          (sorted_unread t _).imp fun h => fun heq => lt_irrefl _ (congrArg (scanKey setup) heq ▸ h)
        have hsub := (subperm_of_subset hnodup hlater).length_le
        rw [hpages, length_append, length_append, length_singleton] at hfuel
        omega
      obtain ⟨kept, hkept, hrun, hlost⟩ := ih hshorter fun rows hsubset => hbatch rows
        fun row hrow => hrest (hlater (hsubset hrow))
      have hnotRead (row) (hrow : row ∈ rest) : row ∉ read ++ [last] := fun hmem =>
        lt_irrefl _ (hbehind row hmem row hrow)
      refine ⟨read ++ [last] ++ kept, ?_, ?_, fun hcut => ?_⟩
      · exact append_subset.mpr ⟨hpage, fun row hrow => hrest (hlater (hkept hrow))⟩
      · rw [backfillGsi_full hsplit hread, hbatch _ hpage, hrun]
        simp [indexInserts]
      · by_cases hwhole : ∀ next, rest.head? = some next → last.pk ≠ next.pk
        · rw [unread_last hsplit hwhole] at hlost
          obtain ⟨lost, hmem, hnot⟩ := hlost fun hwholeRest => hcut <| pagesWhole_of_drop
            (fun a b ha hb => by
              rw [hsplit, getElem?_append_right (by omega), ← hread] at ha
              simp only [Nat.add_sub_cancel, Nat.sub_self, getElem?_cons_zero,
                Option.some.injEq] at ha
              rw [← ha]
              exact hwhole b (by rw [← hdrop, head?_drop, hb])) (hdrop ▸ hwholeRest)
          exact ⟨lost, hrest hmem, fun h => (mem_append.mp h).elim (hnotRead lost hmem) hnot⟩
        · obtain ⟨next, hnext, hsame⟩ : ∃ next, rest.head? = some next ∧ last.pk = next.pk := by
            simpa using hwhole
          have hmem := mem_of_mem_head? hnext
          refine ⟨next, hrest hmem, fun h => (mem_append.mp h).elim (hnotRead next hmem) fun h => ?_⟩
          have hlt := (mem_unread.mp (hkept h)).2 _ rfl
          rw [hsame] at hlt
          exact lt_irrefl _ hlt
    · refine ⟨_, List.Subset.refl _, ?_, fun hcut => absurd (fun k a b _ hb => ?_) hcut⟩
      · rw [backfillGsi_short (Nat.lt_of_not_le hfull), hbatch _ (List.Subset.refl _)]
      · have := (List.getElem?_eq_some_iff.mp hb).1
        simp only [backfillPageSize] at hfull this
        omega

/-- The index has the row of every item with the index keys, and no other. -/
def BackfillComplete (setup : ScanSetup ς) (t : PhysicalTable setup) (bd : BigDecimalCrate)
    (base64 : Base64Engine) (idx : SyncIndex) (stamp : PhysicalRow ς → ℤ) : Prop :=
  ∃ statements, (∀ fuel, t.rows.length < fuel →
      backfillGsi setup t.rows bd base64 idx stamp fuel none = some (.ok statements)) ∧
    ∀ key v, rowAfter statements key = some v ↔
      ∃ row ∈ t.rows, rowInIndex bd base64 idx row = some (key, v)

theorem length_unread_le (t : PhysicalTable setup) :
    (unread setup t.rows none).length ≤ t.rows.length :=
  (length_insertionSort ..).trans_le ((length_filter_le ..).trans (length_filter_le ..))

/-- The row that a backfill misses has no row in the index. -/
theorem not_backfillComplete (hbd : bd.Documented) (hbase64 : Injective base64.encode)
    (hschema : setup.keySchema = idx.baseKeySchema)
    (hrows : ∀ row ∈ t.rows, ∃ item, row.item = some item ∧ ValidImage idx item ∧
      itemHasIndexKeys item idx.keySchema = true)
    (hcut : ¬ PagesWhole (unread setup t.rows none)) {fuel} (hfuel : t.rows.length < fuel) :
    ∃ statements, backfillGsi setup t.rows bd base64 idx stamp fuel none = some (.ok statements) ∧
    ∃ row ∈ t.rows, ∃ key v, rowInIndex bd base64 idx row = some (key, v) ∧
      rowAfter statements key = none := by
  have hvalid (row) (hrow : row ∈ t.rows) : ∃ item, row.item = some item ∧ ValidImage idx item := by
    obtain ⟨item, hitem, hvalid, -⟩ := hrows row hrow
    exact ⟨item, hitem, hvalid⟩
  obtain ⟨kept, hkept, hrun, hlost⟩ := backfillGsi_kept hbd hbase64 hvalid fuel
    (lt_of_le_of_lt (length_unread_le t) hfuel)
  obtain ⟨row, hmem, hnot⟩ := hlost hcut
  have hrow := (mem_unread.mp hmem).1
  obtain ⟨item, hitem, hvalidItem, hkeys⟩ := hrows row hrow
  obtain ⟨key, hkey⟩ := indexRowKey_ok hbd hbase64 hvalidItem hkeys
  have hindexed := rowInIndex_eq hitem hkeys hkey
  refine ⟨_, hrun, row, hrow, key, _, hindexed,
    Settled.rowAfter_eq (.inl ⟨rfl, fun w hw hwkey => ?_⟩) (.refl _)⟩
  simp only [indexInserts, mem_flatMap, mem_toList, map_eq_some_iff] at hw
  obtain ⟨r, hr, e, he, rfl⟩ := hw
  have hsame : r = row := eq_of_rowInIndex hbd hbase64 hschema (fun r' hr' item' hitem' => by
    obtain ⟨_, hitem'', hvalid'⟩ := hvalid r' hr'
    cases hitem'.symm.trans hitem''
    exact hvalid') (mem_unread.mp (hkept hr)).1 hrow (by rw [he, ← hwkey]) hindexed
  exact hnot (hsame ▸ hr)

end

def byPartition : ScanSetup ℕ where
  keySchema := [⟨"p", .hash⟩, ⟨"r", .range⟩]
  pkText key := match OrdMap.get? key "p" with
    | some (.s text) => .ok text
    | _ => .error (.internal "missing partition key")
  sortValue key := match OrdMap.get? key "r" with
    | some (.b bytes) => .ok (some bytes.length)
    | _ => .error (.internal "missing sort key")
  token text := text.length

def groupIndex : SyncIndex where
  keySchema := [⟨"g", .hash⟩]
  baseKeySchema := [⟨"p", .hash⟩, ⟨"r", .range⟩]
  attrDefs := [⟨"p", .s⟩, ⟨"r", .b⟩, ⟨"g", .s⟩]
  projection := ⟨.keysOnly, none⟩
  declared := by decide

def memberItem (pk : String) (i : ℕ) : Item :=
  [("g", .s "group"), ("p", .s pk), ("r", .b (replicate i 0))]

def memberRow (cut i : ℕ) : PhysicalRow ℕ :=
  let pk := if i < cut then "x" else "xx"
  ⟨pk, some i, some (memberItem pk i)⟩

/-- `n` rows, the first `cut` of them in one partition and the others in the next. -/
def members (cut n : ℕ) : PhysicalTable byPartition where
  rows := (range n).map (memberRow cut)
  distinct := by
    rw [pairwise_map]
    exact pairwise_lt_range.imp fun h _ heq => absurd (some.inj heq) (ne_of_lt h)
  tokens := by
    simp only [List.mem_map, forall_exists_index, and_imp]
    rintro _ i - rfl _ j - rfl
    by_cases hi : i < cut <;> by_cases hj : j < cut <;> simp only [memberRow, hi, hj] <;> decide
  token_range := by
    simp only [List.mem_map, forall_exists_index, and_imp]
    rintro _ i - rfl
    by_cases hi : i < cut <;> simp only [memberRow, hi, if_true, if_false] <;> decide
  alone := by simp [memberRow]
  keyed := by
    simp only [List.mem_map, forall_exists_index, and_imp]
    rintro row i - rfl item hitem
    cases hitem
    exact ⟨rfl, congrArg (fun n => Except.ok (some n)) length_replicate⟩
  sized := by
    simp only [List.mem_map, forall_exists_index, and_imp]
    rintro row i - rfl item hitem
    cases hitem
    simp only [memberItem, itemSizeBytes, map_cons, sum_cons]
    exact Nat.add_pos_left (Nat.add_pos_left (by decide) _) _

theorem memberItem_valid (pk i) : ValidImage groupIndex (memberItem pk i) where
  base := rfl
  index _ := rfl
  normal := by simp [memberItem, NormalKeyValue]

theorem members_rows {cut n row} (h : row ∈ (members cut n).rows) :
    ∃ pk i, row.item = some (memberItem pk i) := by
  obtain ⟨i, -, rfl⟩ := mem_map.mp h
  exact ⟨_, i, rfl⟩

theorem unread_members (cut n) :
    unread byPartition (members cut n).rows none = (range n).map (memberRow cut) := by
  refine rowsAbove_eq ((members cut n).distinct_scanKey.filter _) ?_ fun row => by
    simp [members, Above]
  rw [pairwise_map]
  refine pairwise_lt_range.imp fun {i j} h => scanKey_lt.mpr ?_
  have htokens : byPartition.token "x" < byPartition.token "xx" := by decide
  by_cases hi : i < cut <;> by_cases hj : j < cut <;> simp [memberRow, hi, hj, sortPlace, h, htokens]
  omega

theorem pagesWhole_members (cut) :
    PagesWhole (unread byPartition (members cut 502).rows none) ↔ cut ≤ 500 ∧ 499 < cut := by
  rw [unread_members]
  refine ⟨fun h => ?_, fun hcut k a b ha hb => ?_⟩
  · have hpk := h 0 (memberRow cut 499) (memberRow cut 500) (by simp [backfillPageSize])
      (by simp [backfillPageSize])
    simp only [memberRow] at hpk
    split_ifs at hpk <;> first | omega | exact absurd rfl hpk
  · simp only [getElem?_map, map_eq_some_iff, getElem?_eq_some_iff, getElem_range,
      length_range] at ha hb
    obtain ⟨_, ⟨-, rfl⟩, rfl⟩ := ha
    obtain ⟨_, ⟨hlt, rfl⟩, rfl⟩ := hb
    simp only [backfillPageSize] at hlt ⊢
    obtain rfl : k = 0 := by omega
    simp [memberRow, hcut.2, not_lt.mpr hcut.1]

end ExtendDb.Cassandra
