import ExtendDb.Engine.PageContents
import ExtendDb.Engine.StartKeyAccepted

/-!
# Paged queries are complete

A client that asks on from every `LastEvaluatedKey` gets each row that matches the key condition once
and in order, whatever the limits, the budget, the filter and the chunks storage reads in.
-/

namespace ExtendDb

open Paging Fallible List QueryRequest OrdMap PostRead

namespace QueryRequest

variable (bd : BigDecimalCrate) (req : QueryRequest)

/-- One row of a partition comes before another: on a table by the sort key; on an index, where sort
keys repeat, it is enough that they are different rows. -/
def Before (a b : Item) : Prop :=
  if req.indexInfo.isSome then req.cursorKey a ≠ req.cursorKey b
  else ∃ ks v w, req.keyInfo.keySchema.find? (fun ks => ks.keyType = .range) = some ks ∧
    get? a ks.attributeName = some v ∧ get? b ks.attributeName = some w ∧
    keyOrder bd v w = some .lt

structure PartitionRows (rows : List Item) : Prop where
  valid : ∀ row ∈ rows, req.Row row
  ordered : rows.Pairwise (req.Before bd)

def matching (rows : List Item) : List Item :=
  let admitted := rows.filter (req.keyCondition.admits bd req.effectiveMaps)
  if req.scanIndexForward then admitted else admitted.reverse

end QueryRequest

namespace PostRead

variable (bd : BigDecimalCrate) (post : PostRead)

def keeps (row : Item) : Bool := (post.passes bd row).toOption == some true

/-- A page reports on the rows `taken`: it counts them all and returns those that pass the
filter. -/
structure Reports (taken : List Item) (page : PostReadResult) : Prop where
  evaluated : ∀ row ∈ taken, ∃ passed, post.passes bd row = .ok passed
  items : page.items =
    if post.isCount then none else some ((taken.filter (post.keeps bd)).map post.project)
  count : page.count = (taken.filter (post.keeps bd)).length
  scannedCount : page.scannedCount = taken.length

end PostRead

/-- The pages of a Query visit the rows in order.  A page without a key is the last, and leaves no
row behind; the key of any other page is the key of its last row and is accepted as the next start
key; the walk fails only on a row that the filter cannot be evaluated on.  The rows of a page are
those that fit it. -/
inductive Visits (bd : BigDecimalCrate) (budget : Nat) (req : QueryRequest)
    (limits : Nat → Option Int) :
    Nat → List Item → List PostReadResult → Option DynamoDbError → Prop
  | last {i rows page} (hrows : pageRows budget (limits i) [] rows = rows)
      (hpage : req.post.Reports bd rows page) (hkey : page.lastEvaluatedKey = none) :
      Visits bd budget req limits i rows [page] none
  | next {i taken rest page key pages err}
      (hrows : pageRows budget (limits i) [] (taken ++ rest) = taken)
      (hpage : req.post.Reports bd taken page) (hkey : page.lastEvaluatedKey = some key)
      (hlast : cursorAt req.cursorKey taken = some key)
      (haccepted : req.validateStartKey bd key = .ok ())
      (hrest : Visits bd budget req limits (i + 1) rest pages err) :
      Visits bd budget req limits i (taken ++ rest) (page :: pages) err
  | failed {i rows row e} (hrow : row ∈ pageRows budget (limits i) [] rows)
      (herror : req.post.passes bd row = .error e) : Visits bd budget req limits i rows [] (some e)

/-! ## Pages -/

variable {bd : BigDecimalCrate}

namespace PostRead

variable {post : PostRead}

theorem keptRows_ok {rows kept} (h : post.keptRows bd rows = .ok kept) :
    kept = rows.filter (post.keeps bd) ∧ ∀ row ∈ rows, ∃ passed, post.passes bd row = .ok passed := by
  induction rows generalizing kept with
  | nil =>
    cases h
    exact ⟨rfl, by simp⟩
  | cons row rest ih =>
    obtain ⟨passed, hpassed, h⟩ := unbind h
    obtain ⟨more, hmore, h⟩ := unbind h
    obtain ⟨rfl, hrest⟩ := ih hmore
    refine ⟨?_, by simpa [hpassed] using hrest⟩
    have hkeeps : post.keeps bd row = passed := by
      rw [keeps, hpassed]
      cases passed <;> rfl
    rw [filter_cons, hkeeps]
    cases h
    rfl

theorem keptRows_error {rows e} (h : post.keptRows bd rows = .error e) :
    ∃ row ∈ rows, post.passes bd row = .error e := by
  induction rows with
  | nil => cases h
  | cons row rest ih =>
    rw [keptRows] at h
    cases hrow : post.passes bd row with
    | error e' =>
      rw [hrow] at h
      cases h
      exact ⟨row, by simp, hrow⟩
    | ok passed =>
      rw [hrow] at h
      cases hrest : post.keptRows bd rest with
      | error e' =>
        rw [hrest] at h
        cases h
        obtain ⟨r, hr, herr⟩ := ih hrest
        exact ⟨r, .tail _ hr, herr⟩
      | ok more =>
        rw [hrest] at h
        cases h

end PostRead

theorem reports_pageOf {bd} {req : QueryRequest} {limit taken rest kept}
    (h : req.post.keptRows bd taken = .ok kept) :
    req.post.Reports bd taken
      (req.dropFarEndKey bd (pageOf limit req.post taken rest kept).post) := by
  obtain ⟨rfl, hevaluated⟩ := keptRows_ok h
  refine ⟨hevaluated, ?_, ?_, rfl⟩
  · simp only [pageOf, PostReadAccumulator.finish, accAfter]
    split <;> rfl
  simp only [dropFarEndKey, pageOf, PostReadAccumulator.finish, accAfter]
  split
  · rfl
  · rw [length_map]

/-! ## Rows -/

variable {req : QueryRequest} {rows : List Item}

namespace QueryRequest

theorem Row.size_pos {row} (hrow : req.Row row) (hreq : req.WellFormed) :
    0 < itemSizeBytes row := by
  obtain ⟨ks, hks, -⟩ := Option.map_eq_some_iff.mp hreq.base.hashFirst
  have hmem : ks ∈ req.lekKeySchema :=
    mem_combinedLekKeySchema_of_base (mem_of_head? hks) _
  obtain ⟨ty, v, -, hv, hmatch⟩ := hrow.value hreq hmem
  have hnonempty : validateNoEmptyKeyValue ks.attributeName v = .ok () := by
    simpa [hv] using forM_eq_ok.mp hrow.nonempty ks hmem
  refine lt_of_lt_of_le ?_ (attributeValueSize_le_itemSizeBytes (mem_of_get? hv))
  cases v <;> cases ty <;> simp only [ScalarAttributeType.matches, Bool.false_eq_true] at hmatch
  case s.s x =>
    by_contra hzero
    have hempty : x = "" := String.utf8ByteSize_eq_zero_iff.mp
      (by simpa [attributeValueSize] using hzero)
    simp [validateNoEmptyKeyValue, emptyKeyKind, hempty] at hnonempty
  case n.n x => exact one_le_dynamodbNumberSize x
  case b.b x =>
    by_contra hzero
    have hempty : x = [] := by simpa [attributeValueSize] using hzero
    simp [validateNoEmptyKeyValue, emptyKeyKind, hempty] at hnonempty

theorem Before.cursorKey_ne {a b} (h : req.Before bd a b) : req.cursorKey a ≠ req.cursorKey b := by
  rw [Before] at h
  split at h
  · exact h
  rename_i hindex
  obtain ⟨ks, v, w, hks, hv, hw, hlt⟩ := h
  intro heq
  have hmem : ks.attributeName ∈ req.lekKeySchema.map (·.attributeName) := by
    have hnone : req.indexInfo = none := by simpa using hindex
    rw [lekKeySchema, hnone]
    exact mem_map_of_mem (mem_of_find?_eq_some hks)
  have hget (row : Item) : get? (req.cursorKey row) ks.attributeName =
      get? row ks.attributeName := by
    rw [cursorKey, get?_extractKey, if_pos hmem]
  have hvw : some v = some w := by rw [← hv, ← hw, ← hget a, ← hget b, heq]
  cases hvw
  exact keyOrder_self_ne_lt v hlt

def ReadBefore (bd : BigDecimalCrate) (req : QueryRequest) (a b : Item) : Prop :=
  if req.scanIndexForward then req.Before bd a b else req.Before bd b a

theorem ReadBefore.cursorKey_ne {a b} (h : req.ReadBefore bd a b) :
    req.cursorKey a ≠ req.cursorKey b := by
  rw [ReadBefore] at h
  split at h
  · exact h.cursorKey_ne
  · exact h.cursorKey_ne.symm

theorem PartitionRows.readBefore (h : req.PartitionRows bd rows) :
    (req.matching bd rows).Pairwise (req.ReadBefore bd) := by
  have hadmitted := h.ordered.filter (req.keyCondition.admits bd req.effectiveMaps)
  have hread : ReadBefore bd req = fun a b =>
      if req.scanIndexForward then req.Before bd a b else req.Before bd b a := rfl
  rw [matching, hread]
  cases req.scanIndexForward with
  | true => exact hadmitted
  | false => exact pairwise_reverse.mpr hadmitted

theorem mem_matching {row} : row ∈ req.matching bd rows ↔
      row ∈ rows ∧ req.keyCondition.admits bd req.effectiveMaps row = true := by
  rw [matching]
  split <;> simp

theorem not_pageEndsAtFarEnd (hbd : bd.Documented) (hreq : req.WellFormed) {row later}
    (hrow : req.Row row) (hadmits : req.keyCondition.admits bd req.effectiveMaps row = true)
    (hlater : req.keyCondition.admits bd req.effectiveMaps later = true)
    (hbefore : req.ReadBefore bd row later) :
    pageEndsAtFarEnd bd (req.cursorKey row) req.keyCondition req.effectiveMaps req.shape =
      false := by
  rw [pageEndsAtFarEnd, Bool.or_eq_false_iff, Option.isSome_eq_false_iff, Option.isNone_iff_eq_none]
  by_cases hindex : req.indexInfo.isSome = true
  · refine ⟨by simp [QueryReadShape.isHashOnlyTable, shape, hindex], ?_⟩
    simp [farEnd, shape, hindex]
  · have hnone : req.indexInfo = none := by simpa using hindex
    -- the sort keys of the two rows, in the order of the read
    obtain ⟨ks, v, w, hks, hv, hw, horder⟩ : ∃ ks v w,
        req.keyInfo.keySchema.find? (fun ks => ks.keyType = .range) = some ks ∧
        get? row ks.attributeName = some v ∧
        get? later ks.attributeName = some w ∧
        keyOrder bd v w = some (if req.scanIndexForward then .lt else .gt) := by
      rw [ReadBefore, Before, Before, if_neg hindex, if_neg hindex] at hbefore
      cases hforward : req.scanIndexForward with
      | true =>
        rw [hforward] at hbefore
        exact hbefore
      | false =>
        rw [hforward] at hbefore
        obtain ⟨ks, w, v, hks, hw, hv, hlt⟩ := hbefore
        exact ⟨ks, v, w, hks, hv, hw, by rw [keyOrder_swap, hlt]; rfl⟩
    refine ⟨?_, ?_⟩
    · have hrange : req.keyInfo.keySchema.any (fun k => k.keyType == .range) = true :=
        any_eq_true.mpr ⟨ks, mem_of_find?_eq_some hks, by
          simpa using find?_some hks⟩
      simp [QueryReadShape.isHashOnlyTable, shape, queryKeySchema, hnone, hrange]
    · by_contra hfar
      obtain ⟨kind, hfar⟩ := Option.ne_none_iff_exists'.mp hfar
      obtain ⟨-, sk, bound, hsk, heval, hbound, hat⟩ := farEnd_eq_some hfar
      have hname := hreq.sortKey hnone sk hsk ks hks
      have hmem : sk ∈ req.keyCondition.sortConditions := by
        rw [KeyCondition.sortConditions, hsk]
        simp
      have hadmitted {r : Item} (h : req.keyCondition.admits bd req.effectiveMaps r = true) :
          sk.admits bd req.effectiveMaps r = true := by
        rw [KeyCondition.admits, Bool.and_eq_true, all_eq_true, all_eq_true] at h
        exact h.2 sk hmem
      -- the condition reads the sort keys themselves
      have hreads {r : Item} {u : AttributeValue} (h : sk.admits bd req.effectiveMaps r = true)
          (hu : get? r ks.attributeName = some u)
          (hscalar : ∃ ty : ScalarAttributeType, ty.matches u = true) :
          resolvePath sk.path r req.effectiveMaps = .ok (some u) := by
        obtain ⟨x, _, hx, -⟩ := SortKeyCondition.admits_iff.mp h
        obtain ⟨ty, hty⟩ := hscalar
        have hwalk := hx
        rw [resolvePath_eq hname, hu] at hwalk
        rw [hx, walkPath_scalar hty hwalk]
      obtain ⟨ty, hvty, hwty⟩ := keyOrder_scalar horder
      exact hrow.not_admits_past_farEnd hbd hreq heval hbound hat (hadmitted hadmits)
        (hadmitted hlater) (hreads (hadmitted hadmits) hv ⟨ty, hvty⟩)
        (hreads (hadmitted hlater) hw ⟨ty, hwty⟩) horder

end QueryRequest

/-! ## The walk -/

section

variable {budget : Nat} {limits : Nat → Option Int} {limit : Option Int}

theorem validatePage_ok (hreq : req.WellFormed) (hlimit : ∀ l, limit = some l → 1 ≤ l) {startKey}
    (hstart : ∀ key, startKey = some key → req.validateStartKey bd key = .ok ()) :
    req.validatePage bd limit startKey = .ok () := by
  have hopen : limit.any (· < 1) = false := by
    cases limit with
    | none => rfl
    | some l => simpa using hlimit l rfl
  cases startKey with
  | none => simp [validatePage, hreq.select, hopen]
  | some key => simp [validatePage, hreq.select, hopen, hstart key rfl]

theorem eq_nil_of_lastEvaluatedKey_none (hbd : bd.Documented) (hreq : req.WellFormed)
    (hlimit : ∀ l, limit = some l → 1 ≤ l) {taken left kept}
    (htaken : pageRows budget limit [] (taken ++ left) = taken)
    (hvalid : ∀ row ∈ taken ++ left, req.Row row ∧
      req.keyCondition.admits bd req.effectiveMaps row = true)
    (hordered : (taken ++ left).Pairwise (req.ReadBefore bd))
    (hkey : (req.dropFarEndKey bd
      (pageOf limit req.post taken (taken ++ left) kept).post).lastEvaluatedKey = none) :
    left = [] := by
  by_contra hleft
  obtain ⟨later, rest, rfl⟩ := exists_cons_of_ne_nil hleft
  have hne : taken ≠ [] := by
    rintro rfl
    exact takePage_ne_nil hlimit hleft htaken
  obtain ⟨init, row, rfl⟩ := (eq_nil_or_concat' taken).resolve_left hne
  obtain ⟨hrow, hadmits⟩ := hvalid row (by simp)
  have hend := not_pageEndsAtFarEnd hbd hreq hrow hadmits (hvalid later (by simp)).2
    ((pairwise_append.mp hordered).2.2 row (by simp) later (by simp))
  -- the page leaves a row behind, so it has the key of its last row, which is kept
  have hlast : (pageOf limit req.post (init ++ [row]) (init ++ [row] ++ later :: rest)
      kept).post.lastEvaluatedKey = some (req.cursorKey row) := by
    rw [← cursorAt_concat req.cursorKey init row]
    exact if_pos (by simp)
  rw [dropFarEndKey, hlast] at hkey
  simp [hend] at hkey

theorem validateStartKey_of_lastEvaluatedKey (hbd : bd.Documented) (hreq : req.WellFormed)
    {taken rest kept key}
    (hvalid : ∀ row ∈ taken, req.Row row ∧ req.keyCondition.admits bd req.effectiveMaps row = true)
    (hkey : (req.dropFarEndKey bd
      (pageOf limit req.post taken rest kept).post).lastEvaluatedKey = some key) :
    taken ≠ [] ∧ cursorAt req.cursorKey taken = some key ∧
      req.validateStartKey bd key = .ok () := by
  obtain ⟨hkey, hend⟩ := Option.filter_eq_some_iff.mp hkey
  have hcursor : cursorAt req.cursorKey taken = some key := by
    change (if _ then cursorAt req.cursorKey taken else none) = some key at hkey
    split at hkey
    · exact hkey
    · cases hkey
  obtain rfl | ⟨init, row, rfl⟩ := eq_nil_or_concat' taken
  · cases hcursor
  refine ⟨by simp, hcursor, ?_⟩
  rw [cursorAt_concat] at hcursor
  cases hcursor
  obtain ⟨hrow, hadmits⟩ := hvalid row (by simp)
  exact hrow.validateStartKey_ok hbd hreq hadmits (by simpa using hend)

theorem exists_visits (hbd : bd.Documented) (hreq : req.WellFormed)
    (hlimits : ∀ i l, limits i = some l → 1 ≤ l) (visited) {rest : List Item}
    (hvalid : ∀ row ∈ rest, req.Row row ∧ req.keyCondition.admits bd req.effectiveMaps row = true)
    (hordered : (visited ++ rest).Pairwise (req.ReadBefore bd)) (i)
    (hstart : ∀ key, cursorAt req.cursorKey visited = some key →
      req.validateStartKey bd key = .ok ()) :
    ∃ pages err, Visits bd budget req limits i rest pages err ∧
      ∀ (σ : Type) (fetch : Fetch σ), ReadsChunks req.cursorKey (visited ++ rest) fetch →
        ∀ (s : σ) (fuel : Nat), rest.length < fuel →
          pagedQuery bd budget fetch req limits fuel i (cursorAt req.cursorKey visited) s =
            some (pages, err) := by
  induction hlength : rest.length using Nat.strong_induction_on generalizing visited rest i with
  | _ n ih =>
  subst hlength
  have hpage {σ : Type} {fetch : Fetch σ}
      (hfetch : ReadsChunks req.cursorKey (visited ++ rest) fetch) (s : σ) {fuel : Nat}
      (hfuel : rest.length < fuel) :
      ∃ n s', fuel = n + 1 ∧
        queryPage bd budget fetch req fuel (limits i) (cursorAt req.cursorKey visited) s =
        some ((fun kept => (req.dropFarEndKey bd
          (pageOf (limits i) req.post (pageRows budget (limits i) [] rest) rest kept).post, s')) <$>
          req.post.keptRows bd (pageRows budget (limits i) [] rest)) := by
    have hkeys : DistinctKeys req.cursorKey (visited ++ rest) :=
      hordered.imp fun h => h.cursorKey_ne
    obtain ⟨s', hread⟩ := readPage_eq bd budget (limits i) req.post hfetch hkeys
      (fun row hrow => (hvalid row hrow).1.size_pos hreq) hfuel s
    obtain ⟨n, hn⟩ := Nat.exists_eq_succ_of_ne_zero (Nat.ne_zero_of_lt hfuel)
    refine ⟨n, s', hn, ?_⟩
    rw [queryPage, validatePage_ok hreq (hlimits i) hstart]
    change Option.map _ (readPage bd budget (limits i) req.post fetch fuel
      (cursorAt req.post.cursorKey visited) s) = _
    rw [hread]
    cases req.post.keptRows bd (pageRows budget (limits i) [] rest) <;> rfl
  obtain ⟨left, hrest⟩ := pageRows_isPrefix budget (limits i) [] rest
  generalize htaken : pageRows budget (limits i) [] rest = taken at hpage hrest
  subst hrest
  have hvalidTaken : ∀ row ∈ taken, req.Row row ∧
      req.keyCondition.admits bd req.effectiveMaps row = true :=
    fun row hrow => hvalid row (mem_append_left _ hrow)
  cases hkept : req.post.keptRows bd taken with
  | error e =>
    obtain ⟨row, hrow, he⟩ := keptRows_error hkept
    refine ⟨[], some e, .failed (by rwa [htaken]) he, fun σ fetch hfetch s fuel hfuel => ?_⟩
    obtain ⟨fuel, s', rfl, hpage⟩ := hpage hfetch s hfuel
    rw [hkept] at hpage
    rw [pagedQuery, hpage]
    rfl
  | ok kept =>
    obtain ⟨page, hpageEq⟩ : ∃ page, page = req.dropFarEndKey bd
      (pageOf (limits i) req.post taken (taken ++ left) kept).post := ⟨_, rfl⟩
    have hreports : req.post.Reports bd taken page := hpageEq ▸ reports_pageOf hkept
    cases hkey : page.lastEvaluatedKey with
    | none =>
      -- the walk ends here
      have hleft : left = [] := eq_nil_of_lastEvaluatedKey_none hbd hreq (hlimits i) htaken
        hvalid (pairwise_append.mp hordered).2.1 (hpageEq ▸ hkey)
      subst hleft
      rw [append_nil] at *
      refine ⟨[page], none, .last htaken hreports hkey, fun σ fetch hfetch s fuel hfuel => ?_⟩
      obtain ⟨fuel, s', rfl, hpage⟩ := hpage hfetch s hfuel
      rw [hkept, Except.map_ok, ← hpageEq] at hpage
      simp [pagedQuery, hpage, hkey]
    | some key =>
      -- the next request starts behind the rows of this page
      obtain ⟨hne, hcursor, haccepted⟩ :=
        validateStartKey_of_lastEvaluatedKey hbd hreq hvalidTaken (hpageEq ▸ hkey)
      have hvisited : cursorAt req.cursorKey (visited ++ taken) = some key :=
        (cursorAt_append _ _ hne).trans hcursor
      have hshorter : left.length < (taken ++ left).length := by
        rw [length_append]
        have := length_pos_of_ne_nil hne
        omega
      obtain ⟨pages, err, hvisits, hwalk⟩ := ih left.length hshorter
        (visited ++ taken) (fun row hrow => hvalid row (mem_append_right _ hrow))
        (by rwa [append_assoc]) (i + 1)
        (fun k hk => by rw [hvisited] at hk; cases hk; exact haccepted) rfl
      refine ⟨page :: pages, err, .next htaken hreports hkey hcursor haccepted hvisits,
        fun σ fetch hfetch s fuel hfuel => ?_⟩
      obtain ⟨fuel, s', rfl, hpage⟩ := hpage hfetch s hfuel
      have hlater := hwalk σ fetch (by rwa [append_assoc]) s' fuel (by omega)
      rw [hkept, Except.map_ok, ← hpageEq] at hpage
      rw [hvisited] at hlater
      simp [pagedQuery, hpage, hkey, hlater]

variable {pages : List PostReadResult}

theorem Visits.err_eq_none {i err} (h : Visits bd budget req limits i rows pages err)
    (hfilter : ∀ row ∈ rows, ∃ passed, req.post.passes bd row = .ok passed) : err = none := by
  induction h with
  | last _ _ _ => rfl
  | next _ _ _ _ _ _ ih => exact ih fun row hrow => hfilter row (mem_append_right _ hrow)
  | failed hrow herror =>
    obtain ⟨passed, hpassed⟩ := hfilter _ ((pageRows_isPrefix ..).subset hrow)
    rw [herror] at hpassed
    cases hpassed

/-- The pages of a walk that ends together: every row counted, those that pass the filter returned,
in order. -/
theorem Visits.output {i} (h : Visits bd budget req limits i rows pages none) :
    (pages.map (·.scannedCount)).sum = rows.length ∧
      (pages.map (·.count)).sum = (rows.filter (req.post.keeps bd)).length ∧
      pages.flatMap (·.items.getD []) =
        if req.post.isCount then [] else (rows.filter (req.post.keeps bd)).map req.post.project := by
  generalize herr : (none : Option DynamoDbError) = err at h
  induction h with
  | last _ hpage _ =>
    refine ⟨by simp [hpage.scannedCount], by simp [hpage.count], ?_⟩
    rw [flatMap_singleton, hpage.items]
    split <;> rfl
  | next _ hpage _ _ _ _ ih =>
    obtain ⟨hscanned, hcount, hitems⟩ := ih herr
    refine ⟨by simp [hpage.scannedCount, hscanned], by simp [hpage.count, hcount], ?_⟩
    rw [flatMap_cons, hitems, hpage.items]
    split <;> simp
  | failed _ _ => cases herr

end

/-- Asking on from every `LastEvaluatedKey` visits the matching rows of a partition once each and in
order, with every key accepted and no row left behind the last page; the pages are the same however
the storage splits its reads. -/
theorem pagedQuery_visits_matching (bd : BigDecimalCrate) (hbd : bd.Documented) (budget : Nat)
    (req : QueryRequest) (hreq : req.WellFormed) (rows : List Item)
    (hrows : req.PartitionRows bd rows) (limits : Nat → Option Int)
    (hlimits : ∀ i l, limits i = some l → 1 ≤ l) :
    ∃ pages err, Visits bd budget req limits 0 (req.matching bd rows) pages err ∧
      ((∀ row ∈ req.matching bd rows, ∃ passed, req.post.passes bd row = .ok passed) → err = none ∧
        (pages.map (·.scannedCount)).sum = (req.matching bd rows).length ∧
        (pages.map (·.count)).sum = ((req.matching bd rows).filter (req.post.keeps bd)).length ∧
        pages.flatMap (·.items.getD []) = if req.post.isCount then [] else
          ((req.matching bd rows).filter (req.post.keeps bd)).map req.post.project) ∧
      ∀ (σ : Type) (fetch : Fetch σ), ReadsChunks req.cursorKey (req.matching bd rows) fetch →
        ∀ (s : σ) (fuel : Nat), (req.matching bd rows).length < fuel →
          pagedQuery bd budget fetch req limits fuel 0 none s = some (pages, err) := by
  obtain ⟨pages, err, hvisits, hwalk⟩ := exists_visits hbd hreq hlimits []
    (fun row hrow => ⟨hrows.valid row (mem_matching.mp hrow).1, (mem_matching.mp hrow).2⟩)
    hrows.readBefore 0 fun _ h => nomatch h
  refine ⟨pages, err, hvisits, fun hfilter => ?_, hwalk⟩
  obtain rfl := hvisits.err_eq_none hfilter
  exact ⟨rfl, hvisits.output⟩

def rangeQuery : QueryRequest where
  keyInfo := sortKeyTable
  indexInfo := none
  keyCondition :=
    ⟨[.attr "pk"], .placeholder "p", [], some (.compare [.attr "sk"] .lt (.placeholder "hi")), []⟩
  effectiveMaps := ⟨[], [("hi", .s "d"), ("p", .s "a")]⟩
  combinedMaps := ⟨[], [("hi", .s "d"), ("p", .s "a")]⟩
  filter := none
  projection := none
  select := none
  scanIndexForward := false

def rangeRows : List Item :=
  [[("pk", .s "a"), ("sk", .s "b")], [("pk", .s "a"), ("sk", .s "c")],
    [("pk", .s "a"), ("sk", .s "d")]]

theorem rangeQuery_wellFormed : rangeQuery.WellFormed where
  base := ⟨rfl, by decide⟩
  index := fun _ h => nomatch h
  names := by decide
  sortKey := by
    rintro - _ ⟨⟩ _ ⟨⟩
    rfl
  select := rfl

theorem rangeRows_partition : rangeQuery.PartitionRows .reference rangeRows where
  valid := by
    intro row hrow
    simp only [rangeRows, mem_cons, not_mem_nil, or_false] at hrow
    rcases hrow with rfl | rfl | rfl <;> exact ⟨rfl, rfl⟩
  ordered := by
    have hbefore (x y : String) (h : keyOrder .reference (.s x) (.s y) = some .lt) :
        rangeQuery.Before .reference [("pk", .s "a"), ("sk", .s x)] [("pk", .s "a"), ("sk", .s y)] :=
      ⟨⟨"sk", .range⟩, .s x, .s y, rfl, rfl, rfl, h⟩
    simp only [rangeRows]
    simp [hbefore "b" "c" rfl, hbefore "b" "d" rfl, hbefore "c" "d" rfl]

/-- The theorem at two pages of one row each, over storage that reads as many rows as it is asked
for. -/
theorem pagedQuery_visits_matching_rangeRows :
    ∃ pages err, Visits .reference pageByteBudget rangeQuery (fun _ => some 1) 0
        (rangeQuery.matching .reference rangeRows) pages err ∧
      pagedQuery .reference pageByteBudget
        (readNext rangeQuery.cursorKey (rangeQuery.matching .reference rangeRows))
        rangeQuery (fun _ => some 1) 4 0 none () = some (pages, err) := by
  obtain ⟨pages, err, hvisits, -, hwalk⟩ := pagedQuery_visits_matching .reference
    BigDecimalCrate.reference_documented pageByteBudget rangeQuery rangeQuery_wellFormed rangeRows
    rangeRows_partition (fun _ => some 1) (by rintro _ _ ⟨⟩; exact Int.le_refl 1)
  exact ⟨pages, err, hvisits, hwalk Unit _ (readsChunks_readNext _ _) () 4 (by decide)⟩

end ExtendDb
