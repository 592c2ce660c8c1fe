import ExtendDb.Engine.PageContents
import ExtendDb.Theory.NumberedLog
import Mathlib.Data.Prod.Lex

/-!
# Scan of a base table

A scan reads the rows of a token range in the order of token and sort key.  A page asks for one row
more than it needs; rows without an item are dropped before the rows are counted.
-/

namespace ExtendDb.Cassandra

open NumberedLog Paging List Option List.Pairwise

/-- A row as a read returns it.  A row without an item is one a delete or a prepared write left; one
without a sort key is that of a table without one, or of a partition that has only static columns. -/
structure PhysicalRow (ς : Type) where
  pk : String
  sk : Option ς
  item : Option Item

/-- The functions a scan uses of a key: the partition text, the value of its sort key if the schema
has one, and the token of a partition. -/
structure ScanSetup (ς : Type) where
  keySchema : List KeySchemaElement
  pkText : Item → Except StorageError String
  sortValue : Item → Except StorageError (Option ς)
  token : String → ℤ

def minToken : ℤ := -2 ^ 63

def maxToken : ℤ := 2 ^ 63 - 1

def segmentTokenBounds (segment totalSegments : Option ℤ) : Option (ℤ × ℤ) :=
  match segment, totalSegments with
  | some seg, some total =>
    if 1 < total ∧ 0 ≤ seg ∧ seg < total then
      let ring := maxToken - minToken + 1
      let span := ring / total
      some (minToken + span * seg,
        if seg = total - 1 then maxToken else minToken + span * (seg + 1) - 1)
    else none
  | _, _ => none

def inBounds (bounds : Option (ℤ × ℤ)) (token : ℤ) : Bool :=
  bounds.all fun b => decide (b.1 ≤ token ∧ token ≤ b.2)

/-- A missing sort key comes first. -/
def sortPlace {ς : Type} : Option ς → WithBot ς
  | some c => c
  | none => ⊥

variable {ς : Type}

section

variable [LinearOrder ς] (setup : ScanSetup ς) (rows : List (PhysicalRow ς))

def scanKey (row : PhysicalRow ς) : ℤ ×ₗ WithBot ς :=
  toLex (setup.token row.pk, sortPlace row.sk)

def selectRows (condition : PhysicalRow ς → Bool) (limit : ℕ) : List (PhysicalRow ς) :=
  page (scanKey setup) (rows.filter condition) none limit

def scanPaginated (startKey : Item) (tokenUpper : Option ℤ) (fetchLimit : ℕ) :
    Except StorageError (List (PhysicalRow ς)) := do
  let pk ← setup.pkText startKey
  let sk ← setup.sortValue startKey
  -- finish the partition of the start key, if it has a sort key to advance past
  let rows1 := match sk with
    | some c => selectRows setup rows
        (fun row => decide (row.pk = pk ∧ sortPlace (some c) < sortPlace row.sk)) fetchLimit
    | none => []
  let rows2 := selectRows setup rows (fun row => decide (setup.token pk < setup.token row.pk ∧
      ∀ hi, tokenUpper = some hi → setup.token row.pk ≤ hi)) (fetchLimit - rows1.length)
  pure (if rows1.length < fetchLimit then rows1 ++ rows2 else rows1)

section

variable (bounds : Option (ℤ × ℤ))

/-- The rows of a page and one more: the first page of a token range, or a later one. -/
def scanRows (startKey : Option Item) (fetchLimit : ℕ) :
    Except StorageError (List (PhysicalRow ς)) :=
  match startKey with
  | some key => scanPaginated setup rows key (bounds.map Prod.snd) fetchLimit
  | none => .ok (selectRows setup rows (fun row => inBounds bounds (setup.token row.pk)) fetchLimit)

def scanImpl (startKey : Option Item) (limit : ℤ) :
    Except StorageError (List Item × Option Item) := do
  let actualLimit := limit.toNat
  -- one extra to detect more pages
  let fetched ← scanRows setup rows bounds startKey (actualLimit + 1)
  let items := fetched.filterMap (·.item)
  let finalItems := items.take actualLimit
  pure (finalItems, if actualLimit < items.length then
    finalItems.getLast?.map (extractKey · setup.keySchema) else none)

/-- The storage read of a scan, as a page of it uses it. -/
def scanFetch : Fetch Unit :=
  fun startKey count s => (scanImpl setup rows bounds startKey count).map (·, s)

def scanKeyInSegment (key : Item) : Except StorageError Bool :=
  (setup.pkText key).map fun pk => inBounds bounds (setup.token pk)

end

def boundsOf (segment : Option (ℤ × ℤ)) : Option (ℤ × ℤ) :=
  segmentTokenBounds (segment.map Prod.fst) (segment.map Prod.snd)

def checkSegment (segment : Option (ℤ × ℤ)) (startKey : Option Item) : Result Unit :=
  match segment, startKey with
  | some (seg, total), some key =>
    match scanKeyInSegment setup (segmentTokenBounds (some seg) (some total)) key with
    | .error e => .error (storageErrToDynamo e)
    | .ok true => .ok ()
    | .ok false => .error (.validationException
        ("The provided starting key is invalid: Invalid ExclusiveStartKey. " ++
          "Please use ExclusiveStartKey with correct Segment. " ++
          "TotalSegments: " ++ toString total ++ " Segment: " ++ toString seg))
  | _, _ => .ok ()

/-- The items a client gets that asks on from every `LastEvaluatedKey` until there is none. -/
def scanWalk (bd : BigDecimalCrate) (budget : ℕ) (limit : Option ℤ) (post : PostRead)
    (segment : Option (ℤ × ℤ)) : ℕ → Option Item → Option (Result (List Item))
  | 0, _ => none
  | fuel + 1, startKey =>
    match checkSegment setup segment startKey with
    | .error e => some (.error e)
    | .ok () =>
      match readPage bd budget limit post (scanFetch setup rows (boundsOf segment)) (fuel + 1)
          startKey () with
      | none => none
      | some (.error e) => some (.error e)
      | some (.ok (result, _)) =>
        match result.post.lastEvaluatedKey with
        | none => some (.ok (result.post.items.getD []))
        | some key => (scanWalk bd budget limit post segment fuel (some key)).map fun later =>
            (result.post.items.getD [] ++ ·) <$> later

end

/-! ## The table -/

/-- The rows of a table: distinct partitions have distinct tokens, a row is under the key of its
item, and a row without a sort key is alone in its partition. -/
structure PhysicalTable {ς : Type} [LinearOrder ς] (setup : ScanSetup ς) where
  rows : List (PhysicalRow ς)
  distinct : rows.Pairwise fun a b => a.pk = b.pk → a.sk ≠ b.sk
  tokens : ∀ a ∈ rows, ∀ b ∈ rows, setup.token a.pk = setup.token b.pk → a.pk = b.pk
  token_range : ∀ row ∈ rows, minToken ≤ setup.token row.pk ∧ setup.token row.pk ≤ maxToken
  alone : ∀ a ∈ rows, ∀ b ∈ rows, a.sk = none → b.pk = a.pk → b.sk = none
  keyed : ∀ row ∈ rows, ∀ item, row.item = some item →
    setup.pkText (extractKey item setup.keySchema) = .ok row.pk ∧
    setup.sortValue (extractKey item setup.keySchema) = .ok row.sk
  sized : ∀ row ∈ rows, ∀ item, row.item = some item → 0 < itemSizeBytes item

section

variable [LinearOrder ς] {setup : ScanSetup ς} (t : PhysicalTable setup)

def PhysicalTable.inRange (bounds : Option (ℤ × ℤ)) : List (PhysicalRow ς) :=
  t.rows.filter fun row => inBounds bounds (setup.token row.pk)

def PhysicalTable.itemsIn (bounds : Option (ℤ × ℤ)) : List Item :=
  (rowsAbove (scanKey setup) (t.inRange bounds) none).filterMap (·.item)

variable {t} {bounds : Option (ℤ × ℤ)} {row : PhysicalRow ς}

theorem mem_inRange :
    row ∈ t.inRange bounds ↔ row ∈ t.rows ∧ inBounds bounds (setup.token row.pk) = true :=
  mem_filter

theorem scanKey_lt {a b} : scanKey setup a < scanKey setup b ↔ setup.token a.pk < setup.token b.pk ∨
      setup.token a.pk = setup.token b.pk ∧ sortPlace a.sk < sortPlace b.sk :=
  Prod.Lex.toLex_lt_toLex

omit [LinearOrder ς] in
theorem sortPlace_inj {a b : Option ς} (h : sortPlace a = sortPlace b) : a = b := by
  cases a <;> cases b <;> simp_all [sortPlace]

theorem PhysicalTable.distinct_scanKey (t : PhysicalTable setup) :
    Distinct (scanKey setup) t.rows := by
  refine (and_mem.mp t.distinct).imp ?_
  rintro a b ⟨ha, hb, hne⟩ heq
  obtain ⟨htoken, hsk⟩ := Prod.mk.inj (toLex.injective heq)
  exact hne (t.tokens a ha b hb htoken) (sortPlace_inj hsk)

theorem PhysicalTable.distinct_inRange (t : PhysicalTable setup) (bounds) :
    Distinct (scanKey setup) (t.inRange bounds) :=
  t.distinct_scanKey.filter _

theorem firstQuery_eq (hrow : row ∈ t.rows) (fetchLimit) : (match row.sk with
      | some c => selectRows setup t.rows
          (fun r => decide (r.pk = row.pk ∧ sortPlace (some c) < sortPlace r.sk)) fetchLimit
      | none => []) =
    selectRows setup t.rows
      (fun r => decide (r.pk = row.pk ∧ sortPlace row.sk < sortPlace r.sk)) fetchLimit := by
  cases hsk : row.sk with
  | some c => rfl
  | none =>
    have hnone : t.rows.filter
        (fun r => decide (r.pk = row.pk ∧ sortPlace (none : Option ς) < sortPlace r.sk)) = [] := by
      rw [filter_eq_nil_iff]
      intro r hr hcond
      obtain ⟨hpk, hlt⟩ := decide_eq_true_eq.mp hcond
      rw [t.alone row hrow r hr hsk hpk] at hlt
      exact lt_irrefl _ hlt
    rw [selectRows, hnone]
    exact take_nil.symm

theorem rowsAbove_row (hrow : row ∈ t.inRange bounds) :
    rowsAbove (scanKey setup) (t.inRange bounds) (some (scanKey setup row)) =
      rowsAbove (scanKey setup) (t.rows.filter
        fun r => decide (r.pk = row.pk ∧ sortPlace row.sk < sortPlace r.sk)) none ++
      rowsAbove (scanKey setup) (t.rows.filter
        fun r => decide (setup.token row.pk < setup.token r.pk ∧
          ∀ hi, bounds.map Prod.snd = some hi → setup.token r.pk ≤ hi)) none := by
  obtain ⟨hmem, hbounds⟩ := mem_inRange.mp hrow
  refine rowsAbove_eq (t.distinct_inRange bounds) ?_ fun r => ?_
  · refine pairwise_append.mpr ⟨sorted_above (t.distinct_scanKey.filter _) none,
      sorted_above (t.distinct_scanKey.filter _) none, fun a ha b hb => ?_⟩
    obtain ⟨-, hpk⟩ := mem_filter.mp (mem_rowsAbove.mp ha).1
    obtain ⟨-, htoken⟩ := mem_filter.mp (mem_rowsAbove.mp hb).1
    refine scanKey_lt.mpr (.inl ?_)
    rw [(decide_eq_true_eq.mp hpk).1]
    exact (decide_eq_true_eq.mp htoken).1
  · rw [mem_append, mem_rowsAbove, mem_rowsAbove, mem_inRange, mem_filter, mem_filter]
    simp only [decide_eq_true_eq]
    have habove : Above (some (scanKey setup row)) (scanKey setup r) ↔
        scanKey setup row < scanKey setup r :=
      ⟨fun h => h _ rfl, fun h c hc => by cases hc; exact h⟩
    have hany : Above (none : Option (ℤ ×ₗ WithBot ς)) (scanKey setup r) := fun _ h => nomatch h
    rw [habove, scanKey_lt]
    constructor
    · rintro (⟨⟨hr, hpk, hlt⟩, -⟩ | ⟨⟨hr, htoken, hupper⟩, -⟩)
      · refine ⟨⟨hr, ?_⟩, .inr ⟨by rw [hpk], hlt⟩⟩
        rw [hpk]
        exact hbounds
      refine ⟨⟨hr, ?_⟩, .inl htoken⟩
      cases bounds with
      | none => rfl
      | some b =>
        simp only [inBounds, all_some, decide_eq_true_eq] at hbounds ⊢
        exact ⟨le_of_lt (lt_of_le_of_lt hbounds.1 htoken), hupper b.2 rfl⟩
    · rintro ⟨⟨hr, hin⟩, htoken | ⟨heq, hlt⟩⟩
      · refine .inr ⟨⟨hr, htoken, fun hi hhi => ?_⟩, hany⟩
        cases bounds with
        | none => cases hhi
        | some b =>
          cases hhi
          simp only [inBounds, all_some, decide_eq_true_eq] at hin
          exact hin.2
      · exact .inl ⟨⟨hr, t.tokens r hr row hmem heq.symm, hlt⟩, hany⟩

theorem scanPaginated_eq {startKey} (hrow : row ∈ t.inRange bounds)
    (hpk : setup.pkText startKey = .ok row.pk) (hsk : setup.sortValue startKey = .ok row.sk)
    (fetchLimit) :
    scanPaginated setup t.rows startKey (bounds.map Prod.snd) fetchLimit =
      .ok (page (scanKey setup) (t.inRange bounds) (some (scanKey setup row)) fetchLimit) := by
  have hmem := (mem_inRange.mp hrow).1
  rw [page, rowsAbove_row hrow, take_append]
  simp only [scanPaginated, hpk, hsk, bind, Except.bind, firstQuery_eq hmem fetchLimit]
  simp only [selectRows, page, length_take]
  congr 1
  split
  · rename_i hshort
    congr 2
    omega
  rename_i hfull
  have hzero : fetchLimit - (rowsAbove (scanKey setup) (t.rows.filter
      fun r => decide (r.pk = row.pk ∧ sortPlace row.sk < sortPlace r.sk)) none).length = 0 := by
    omega
  rw [hzero, take_zero, append_nil]

/-! ## Rows without an item at the end -/

/-- In the token range no row without an item comes before one with an item. -/
def PhysicalTable.NullsLast (t : PhysicalTable setup) (bounds : Option (ℤ × ℤ)) : Prop :=
  ∀ a ∈ t.inRange bounds, ∀ b ∈ t.inRange bounds, a.item = none → b.item.isSome = true →
    scanKey setup b < scanKey setup a

omit [LinearOrder ς] in
theorem filterMap_take_of_nullsLast {rows : List (PhysicalRow ς)}
    (h : rows.Pairwise fun a b => a.item = none → b.item = none) (n) :
    (rows.take n).filterMap (·.item) = (rows.filterMap (·.item)).take n := by
  induction rows generalizing n with
  | nil => simp
  | cons row rows ih =>
    obtain ⟨hfirst, hrest⟩ := pairwise_cons.mp h
    cases n with
    | zero => simp
    | succ n =>
      rw [take_succ_cons]
      cases hitem : row.item with
      | some item =>
        rw [filterMap_cons_some hitem, filterMap_cons_some hitem, take_succ_cons, ih hrest]
      | none =>
        -- nothing behind a row without an item has one
        have hnone : rows.filterMap (·.item) = [] :=
          filterMap_eq_nil_iff.mpr fun r hr => hfirst r hr hitem
        have htake : (rows.take n).filterMap (·.item) = [] :=
          filterMap_eq_nil_iff.mpr fun r hr => hfirst r (mem_of_mem_take hr) hitem
        rw [filterMap_cons_none hitem, filterMap_cons_none hitem, hnone, htake, take_nil]

theorem PhysicalTable.NullsLast.pairwise (h : t.NullsLast bounds)
    (cursor : Option (ℤ ×ₗ WithBot ς)) :
    (rowsAbove (scanKey setup) (t.inRange bounds) cursor).Pairwise
      fun a b => a.item = none → b.item = none := by
  refine (and_mem.mp (sorted_above (t.distinct_inRange bounds) cursor)).imp ?_
  rintro a b ⟨ha, hb, hlt⟩ hnone
  by_contra hsome
  exact lt_asymm hlt (h a (mem_rowsAbove.mp ha).1 b (mem_rowsAbove.mp hb).1 hnone
    (isSome_iff_ne_none.mpr hsome))

theorem rows_behind {init rest item} (h : t.itemsIn bounds = init ++ item :: rest) :
    ∃ row ∈ t.inRange bounds, row.item = some item ∧
      (rowsAbove (scanKey setup) (t.inRange bounds) (some (scanKey setup row))).filterMap (·.item) =
        rest := by
  obtain ⟨before, behind, hrows, -, hbehind⟩ := filterMap_eq_append_iff.mp h
  obtain ⟨nulls, row, later, rfl, -, hitem, hlater⟩ := filterMap_eq_cons_iff.mp hbehind
  rw [← append_assoc] at hrows
  refine ⟨row, ?_, hitem, ?_⟩
  · have hmem : row ∈ rowsAbove (scanKey setup) (t.inRange bounds) none := by
      rw [hrows]
      simp
    exact (mem_rowsAbove.mp hmem).1
  · rw [rowsAbove_last (t.distinct_inRange bounds) hrows]
    exact hlater

theorem distinctKeys_itemsIn (bounds : Option (ℤ × ℤ)) :
    DistinctKeys (extractKey · setup.keySchema) (t.itemsIn bounds) := by
  refine pairwise_filterMap.mpr ((and_mem.mp
    (sorted_above (t.distinct_inRange bounds) none)).imp ?_)
  rintro a b ⟨ha, hb, hlt⟩ x hx y hy heq
  have hkey : extractKey x setup.keySchema = extractKey y setup.keySchema := heq
  obtain ⟨hpka, hska⟩ := t.keyed a (mem_inRange.mp (mem_rowsAbove.mp ha).1).1 x hx
  obtain ⟨hpkb, hskb⟩ := t.keyed b (mem_inRange.mp (mem_rowsAbove.mp hb).1).1 y hy
  rw [hkey, hpkb] at hpka
  rw [hkey, hskb] at hska
  refine absurd hlt (not_lt_of_ge (le_of_eq ?_))
  rw [scanKey, scanKey, Except.ok.inj hska, Except.ok.inj hpka]

theorem scanImpl_eq (hnulls : t.NullsLast bounds) {read rest : List Item}
    (hread : t.itemsIn bounds = read ++ rest) (count) :
    scanImpl setup t.rows bounds (cursorAt (extractKey · setup.keySchema) read) count =
      .ok (rest.take count.toNat, if count.toNat < rest.length then
        (rest.take count.toNat).getLast?.map (extractKey · setup.keySchema) else none) := by
  -- the rows of the queries, whichever page it is
  obtain ⟨cursor, hbehind, hrows⟩ : ∃ cursor,
      (rowsAbove (scanKey setup) (t.inRange bounds) cursor).filterMap (·.item) = rest ∧
      scanRows setup t.rows bounds (cursorAt (extractKey · setup.keySchema) read)
          (count.toNat + 1) =
        .ok (page (scanKey setup) (t.inRange bounds) cursor (count.toNat + 1)) := by
    obtain rfl | ⟨init, item, rfl⟩ := eq_nil_or_concat' read
    · exact ⟨none, hread, rfl⟩
    rw [append_assoc] at hread
    obtain ⟨row, hrow, hitem, hbehind⟩ := rows_behind hread
    obtain ⟨hpk, hsk⟩ := t.keyed row (mem_inRange.mp hrow).1 item hitem
    refine ⟨some (scanKey setup row), hbehind, ?_⟩
    rw [cursorAt_concat]
    exact scanPaginated_eq hrow hpk hsk _
  have hitems : (page (scanKey setup) (t.inRange bounds) cursor (count.toNat + 1)).filterMap
      (·.item) = rest.take (count.toNat + 1) := by
    rw [page, filterMap_take_of_nullsLast (hnulls.pairwise cursor), hbehind]
  simp only [scanImpl, hrows, bind, Except.bind, pure, Except.pure, hitems, take_take, length_take]
  rw [Nat.min_eq_left (Nat.le_succ _)]
  by_cases hmore : count.toNat < rest.length
  · rw [if_pos hmore, if_pos (by omega)]
  · rw [if_neg hmore, if_neg (by omega)]

theorem readsChunks_scan (hnulls : t.NullsLast bounds) :
    ReadsChunks (extractKey · setup.keySchema) (t.itemsIn bounds)
      (scanFetch setup t.rows bounds) where
  reads read rest hread count s hcount := by
    have hafter : after (extractKey · setup.keySchema) (t.itemsIn bounds)
        (cursorAt (extractKey · setup.keySchema) read) = rest := by
      rw [hread]
      exact after_cursorAt (hread ▸ distinctKeys_itemsIn bounds)
    rw [hafter]
    refine ⟨_, _, s, by rw [scanFetch, scanImpl_eq hnulls hread]; rfl, take_prefix _ _, ?_, ?_⟩
    · rw [ne_eq, take_eq_self_iff, Nat.not_le]
      by_cases hmore : count.toNat < rest.length
      · rw [if_pos hmore, isSome_map, getLast?_isSome]
        refine ⟨fun _ => hmore, fun _ hnil => ?_⟩
        rcases take_eq_nil_iff.mp hnil with hzero | rfl
        · omega
        · exact absurd hmore (Nat.not_lt_zero _)
      · rw [if_neg hmore]
        exact ⟨fun h => (nomatch h), fun h => absurd h hmore⟩
    · intro hnil
      exact (take_eq_nil_iff.mp hnil).resolve_left (by omega)

end

/-! ## The walk over the pages of a segment -/

section

variable [LinearOrder ς] {setup : ScanSetup ς} {t : PhysicalTable setup} {bd : BigDecimalCrate}
  {post : PostRead}

def passed (bd : BigDecimalCrate) (post : PostRead) (item : Item) : Bool :=
  match post.passes bd item with
  | .ok b => b
  | .error _ => false

def returned (bd : BigDecimalCrate) (post : PostRead) (items : List Item) : List Item :=
  (items.filter (passed bd post)).map post.project

theorem returned_append (items later) :
    returned bd post (items ++ later) = returned bd post items ++ returned bd post later := by
  rw [returned, filter_append, map_append, returned, returned]

theorem keptRows_eq {items} (h : ∀ item ∈ items, ∃ b, post.passes bd item = .ok b) :
    post.keptRows bd items = .ok (items.filter (passed bd post)) := by
  induction items with
  | nil => rfl
  | cons item items ih =>
    obtain ⟨b, hb⟩ := h item (.head _)
    have hrest := ih fun x hx => h x (.tail _ hx)
    rw [PostRead.keptRows, hrest]
    cases b <;> simp [passed, hb, bind, Except.bind, pure, Except.pure]

variable {segment : Option (ℤ × ℤ)}

theorem checkSegment_cursorAt {read rest} (hread : t.itemsIn (boundsOf segment) = read ++ rest) :
    checkSegment setup segment (cursorAt (extractKey · setup.keySchema) read) = .ok () := by
  rcases segment with - | ⟨seg, total⟩
  · rfl
  obtain rfl | ⟨init, item, rfl⟩ := eq_nil_or_concat' read
  · rfl
  rw [append_assoc] at hread
  obtain ⟨row, hrow, hitem, -⟩ := rows_behind hread
  obtain ⟨hmem, hbounds⟩ := mem_inRange.mp hrow
  have hin : scanKeyInSegment setup (segmentTokenBounds (some seg) (some total))
      (extractKey item setup.keySchema) = .ok true := by
    rw [scanKeyInSegment, (t.keyed row hmem item hitem).1]
    exact congrArg Except.ok hbounds
  rw [cursorAt_concat]
  simp [checkSegment, hin]

theorem sized_itemsIn {bounds} : ∀ item ∈ t.itemsIn bounds, 0 < itemSizeBytes item := by
  intro item hitem
  obtain ⟨row, hrow, hsome⟩ := mem_filterMap.mp hitem
  exact t.sized row (mem_inRange.mp (mem_rowsAbove.mp hrow).1).1 item hsome

theorem scanWalk_eq (budget) {limit} (hlimit : ∀ l, limit = some l → 1 ≤ l)
    (hcount : post.isCount = false) (hschema : post.lekKeySchema = setup.keySchema)
    (hnulls : t.NullsLast (boundsOf segment))
    (hfilter : ∀ item ∈ t.itemsIn (boundsOf segment), ∃ b, post.passes bd item = .ok b) {read rest}
    (hread : t.itemsIn (boundsOf segment) = read ++ rest) {fuel} (hfuel : rest.length < fuel) :
    scanWalk setup t.rows bd budget limit post segment fuel
      (cursorAt (extractKey · setup.keySchema) read) = some (.ok (returned bd post rest)) := by
  induction fuel generalizing read rest with
  | zero => exact absurd hfuel (Nat.not_lt_zero _)
  | succ fuel ih =>
    have hkey : post.cursorKey = (extractKey · setup.keySchema) := by
      funext item
      rw [PostRead.cursorKey, hschema]
    have hchunks : ReadsChunks post.cursorKey (read ++ rest)
        (scanFetch setup t.rows (boundsOf segment)) := by
      rw [hkey, ← hread]
      exact readsChunks_scan hnulls
    have hdistinct : DistinctKeys post.cursorKey (read ++ rest) := by
      rw [hkey, ← hread]
      exact distinctKeys_itemsIn _
    obtain ⟨_, hpage⟩ := readPage_eq bd budget limit post hchunks hdistinct
      (fun item hitem => sized_itemsIn item (by rw [hread]; exact mem_append_right _ hitem))
      hfuel ()
    obtain ⟨left, hleft⟩ := pageRows_isPrefix budget limit [] rest
    have hnonempty : rest ≠ [] → pageRows budget limit [] rest ≠ [] :=
      fun hrest => takePage_ne_nil hlimit hrest
    generalize pageRows budget limit [] rest = taken at hpage hleft hnonempty
    subst hleft
    rw [keptRows_eq (fun item hitem => hfilter item (by rw [hread]; simp [hitem])), hkey] at hpage
    simp only [scanWalk, checkSegment_cursorAt hread, hpage, Except.map_ok]
    have hitems : (pageOf limit post taken (taken ++ left) (taken.filter (passed bd post))).post.items =
        some (returned bd post taken) := by
      simp [pageOf, PostReadAccumulator.finish, PostRead.accAfter, hcount, returned]
    have hlast : (pageOf limit post taken (taken ++ left)
        (taken.filter (passed bd post))).post.lastEvaluatedKey =
        if (limitReached limit taken.length || decide (taken ≠ taken ++ left)) = true then
          cursorAt (extractKey · setup.keySchema) taken else none := by
      rw [← hkey]
      rfl
    rw [hitems, hlast]
    by_cases hnil : taken = []
    · -- a page takes a row if there is one
      have hleft : left = [] := by
        by_contra hne
        exact hnonempty (by simp [hne]) hnil
      subst hnil hleft
      simp [cursorAt]
    obtain ⟨init, item, rfl⟩ := (eq_nil_or_concat' taken).resolve_left hnil
    split_ifs with hmore
    · rw [cursorAt_concat]
      have hshorter : left.length < fuel := by
        rw [length_append, length_append, length_singleton] at hfuel
        omega
      have hlater := ih (hread.trans (append_assoc read (init ++ [item]) left).symm) hshorter
      rw [cursorAt_append _ _ (by simp), cursorAt_concat] at hlater
      dsimp only
      rw [hlater, returned_append (init ++ [item])]
      rfl
    · have hleft : left = [] := by
        simp only [Bool.or_eq_true, decide_eq_true_eq, not_or, ne_eq, not_not,
          self_eq_append_right] at hmore
        exact hmore.2
      subst hleft
      rw [append_nil]
      rfl

end

/-! ## All segments -/

theorem exists_last {P : ℕ → Prop} (hzero : P 0) {n} (hn : 1 ≤ n) :
    ∃ s < n, P s ∧ (s + 1 = n ∨ ¬ P (s + 1)) := by
  induction n, hn using Nat.le_induction with
  | base => exact ⟨0, Nat.one_pos, hzero, .inl rfl⟩
  | succ n _ ih =>
    obtain ⟨s, hs, hP, hlast | hstop⟩ := ih
    · by_cases hnext : P (s + 1)
      · exact ⟨s + 1, by omega, hnext, .inl (by omega)⟩
      · exact ⟨s, by omega, hP, .inr hnext⟩
    · exact ⟨s, by omega, hP, .inr hstop⟩

def segmentBounds (total seg : ℕ) : Option (ℤ × ℤ) := boundsOf (some ((seg : ℤ), (total : ℤ)))

theorem token_in_one_segment {token : ℤ} (hmin : minToken ≤ token) (hmax : token ≤ maxToken) {total}
    (htotal : 1 ≤ total) :
    ∃ s < total, ∀ seg < total, inBounds (segmentBounds total seg) token = true ↔ seg = s := by
  obtain rfl | htwo : total = 1 ∨ 2 ≤ total := by omega
  · refine ⟨0, Nat.one_pos, fun seg hseg => ⟨fun _ => by omega, fun _ => ?_⟩⟩
    simp [segmentBounds, boundsOf, segmentTokenBounds, inBounds]
  have hspan : 0 ≤ (maxToken - minToken + 1) / (total : ℤ) :=
    Int.ediv_nonneg (by decide) (by omega)
  have hbounds : ∀ seg < total, inBounds (segmentBounds total seg) token = true ↔
      minToken + (maxToken - minToken + 1) / (total : ℤ) * seg ≤ token ∧ (seg + 1 = total ∨
        token < minToken + (maxToken - minToken + 1) / (total : ℤ) * (seg + 1)) := by
    intro seg hseg
    simp only [segmentBounds, boundsOf, segmentTokenBounds, map_some, inBounds]
    rw [if_pos ⟨by omega, by omega, by omega⟩]
    simp only [all_some, decide_eq_true_eq]
    by_cases hlast : seg + 1 = total
    · rw [if_pos (by omega)]
      simp [hlast, hmax]
    · rw [if_neg (by omega)]
      constructor <;> rintro ⟨hlo, hhi⟩ <;> exact ⟨hlo, by omega⟩
  generalize (maxToken - minToken + 1) / (total : ℤ) = span at hspan hbounds
  obtain ⟨s, hs, hlow, hstop⟩ := exists_last
    (P := fun seg => minToken + span * (seg : ℤ) ≤ token) (by simpa using hmin) htotal
  refine ⟨s, hs, fun seg hseg => ?_⟩
  rw [hbounds seg hseg]
  have hmono : ∀ a b : ℕ, a ≤ b → span * (a : ℤ) ≤ span * (b : ℤ) := fun a b hab =>
    Int.mul_le_mul_of_nonneg_left (by omega) hspan
  constructor
  · rintro ⟨hlo, hhi⟩
    rcases Nat.lt_trichotomy seg s with hlt | heq | hgt
    · -- the segment ends before the one that has the token starts
      have := hmono (seg + 1) s hlt
      push_cast at this
      rcases hhi with hhi | hhi <;> omega
    · exact heq
    · have := hmono (s + 1) seg hgt
      rcases hstop with hstop | hstop <;> omega
  · rintro rfl
    refine ⟨hlow, ?_⟩
    rcases hstop with hstop | hstop
    · exact .inl hstop
    · right
      push_cast at hstop
      omega

section

variable [LinearOrder ς] {setup : ScanSetup ς} {t : PhysicalTable setup}

theorem itemsIn_perm (bounds) :
    (t.itemsIn bounds).Perm ((t.inRange bounds).filterMap (·.item)) := by
  refine .filterMap _ ?_
  have hall : (t.inRange bounds).filter
      (fun row => Above (none : Option (ℤ ×ₗ WithBot ς)) (scanKey setup row)) = t.inRange bounds := by
    rw [filter_eq_self]
    exact fun row _ => decide_eq_true fun _ h => nomatch h
  rw [rowsAbove, hall]
  exact perm_insertionSort _ _

theorem inRange_segments_perm (t : PhysicalTable setup) {total} (htotal : 1 ≤ total) :
    ((range total).flatMap fun seg : ℕ =>
      t.inRange (segmentBounds total seg)).Perm t.rows := by
  refine segments_perm nodup_range fun row hrow => ?_
  obtain ⟨hmin, hmax⟩ := t.token_range row hrow
  obtain ⟨s, hs, hin⟩ := token_in_one_segment hmin hmax htotal
  exact ⟨s, mem_range.mpr hs, fun seg hseg => hin seg (mem_range.mp hseg)⟩

end

def byId : ScanSetup ℕ where
  keySchema := [⟨"id", .hash⟩]
  pkText key := match OrdMap.get? key "id" with
    | some (.s text) => .ok text
    | _ => .error (.internal "missing partition key")
  sortValue _ := .ok none
  token text := text.length

/-- No filter and no projection. -/
def everyItem : PostRead := ⟨none, none, ⟨[], []⟩, [⟨"id", .hash⟩], none, none, []⟩

def itemWithId (id : String) : Item := [("id", .s id)]

def twoItems : PhysicalTable byId where
  rows := [⟨"aa", none, some (itemWithId "aa")⟩, ⟨"a", none, some (itemWithId "a")⟩]
  distinct := by simp
  tokens := by simp [byId]; decide
  token_range := by simp [byId, minToken, maxToken]; decide
  alone := by simp
  keyed := by simp; exact ⟨⟨rfl, rfl⟩, rfl, rfl⟩
  sized := by simp; decide

def nullsFirst : PhysicalTable byId where
  rows := [⟨"a", none, none⟩, ⟨"aa", none, none⟩, ⟨"aaa", none, some (itemWithId "aaa")⟩]
  distinct := by simp
  tokens := by simp [byId]; decide
  token_range := by simp [byId, minToken, maxToken]; decide
  alone := by simp
  keyed := by simp; exact ⟨rfl, rfl⟩
  sized := by simp; decide

end ExtendDb.Cassandra
