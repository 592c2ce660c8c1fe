import ExtendDb.Theory.Paging
import ExtendDb.Engine.ReadPage

/-!
# What a page contains

However storage splits a read into chunks, a page evaluates the longest run of rows within the limit
and the budget, and has a key exactly when the limit is reached or a row is left.
-/

namespace ExtendDb

open Paging Fallible List PostRead PostReadAccumulator

namespace PostRead

variable (bd : BigDecimalCrate) (post : PostRead)

/-- The rows that pass the filter; the error of the first row it cannot be evaluated on. -/
def keptRows : List Item → Result (List Item)
  | [] => .ok []
  | row :: rest => do
    let passed ← post.passes bd row
    let kept ← keptRows rest
    pure (if passed then row :: kept else kept)

def cursorKey (row : Item) : Item := extractKey row post.lekKeySchema

def accAfter (read kept : List Item) : PostReadAccumulator where
  scannedCount := read.length
  filteredCount := kept.length
  evaluatedBytes := totalSize itemSizeBytes read
  resultItems := if post.isCount then [] else kept.map post.project
  lastProcessedKey := cursorAt post.cursorKey read

theorem accAfter_nil : post.accAfter [] [] = .new := by
  simp [accAfter, new, totalSize, cursorAt]

@[simp]
theorem limitReached_accAfter (limit read kept) :
    (post.accAfter read kept).limitReached limit = limitReached limit read.length := rfl

theorem totalSize_concat (read row) :
    totalSize itemSizeBytes (read ++ [row]) = totalSize itemSizeBytes read + itemSizeBytes row := by
  simp [totalSize]

theorem push_accAfter (budget) (read kept row) : (post.accAfter read kept).push bd budget post row =
      if 0 < read.length ∧ budget < totalSize itemSizeBytes read + itemSizeBytes row then
        .ok (.pageFull, post.accAfter read kept)
      else (fun passed => (.evaluated,
        post.accAfter (read ++ [row]) (if passed then kept ++ [row] else kept))) <$>
          post.passes bd row := by
  have hfull : ((post.accAfter read kept).scannedCount > 0 ∧
      (post.accAfter read kept).evaluatedBytes + itemSizeBytes row > budget) ↔
      (0 < read.length ∧ budget < totalSize itemSizeBytes read + itemSizeBytes row) := by
    simp [accAfter]
  simp only [push, hfull]
  split
  · rfl
  cases post.passes bd row with
  | error e => rfl
  | ok passed =>
    have hsize := totalSize_concat read row
    have hlast : cursorAt post.cursorKey (read ++ [row]) = some (extractKey row _) :=
      cursorAt_concat post.cursorKey read row
    cases passed <;> cases hcount : post.isCount <;>
      simp [accAfter, hcount, hsize, hlast, bind, Except.bind, map]

theorem keptRows_append (xs ys) : post.keptRows bd (xs ++ ys) = (do
      let kept ← post.keptRows bd xs
      let more ← post.keptRows bd ys
      pure (kept ++ more)) := by
  induction xs with
  | nil =>
    cases hys : post.keptRows bd ys <;> simp [keptRows, hys, bind, Except.bind, pure, Except.pure]
  | cons x xs ih =>
    rw [cons_append, keptRows, keptRows, ih]
    cases post.passes bd x with
    | error e => rfl
    | ok passed =>
      cases post.keptRows bd xs with
      | error e => rfl
      | ok kept =>
        cases post.keptRows bd ys with
        | error e => rfl
        | ok more => cases passed <;> rfl

end PostRead

section

variable (bd : BigDecimalCrate) (budget : Nat) (limit : Option Int) (post : PostRead)

def pageRows (read rest : List Item) : List Item :=
  takePage limit budget itemSizeBytes read.length (totalSize itemSizeBytes read) rest

theorem pageRows_cons (read row rest) : pageRows budget limit read (row :: rest) =
      if limitReached limit read.length ∨
          (0 < read.length ∧ budget < totalSize itemSizeBytes read + itemSizeBytes row) then []
      else row :: pageRows budget limit (read ++ [row]) rest := by
  rw [pageRows, takePage, pageRows, totalSize_concat, length_append, length_singleton]

theorem evaluateItems_accAfter (items read kept) :
    evaluateItems bd budget limit post items (post.accAfter read kept) = (fun more =>
        if pageRows budget limit read items = items then
          .through (post.accAfter (read ++ items) (kept ++ more))
        else .returned ((post.accAfter (read ++ pageRows budget limit read items)
          (kept ++ more)).finish post true)) <$>
        post.keptRows bd (pageRows budget limit read items) := by
  induction items generalizing read kept with
  | nil => simp [evaluateItems, pageRows, keptRows, Functor.map, Except.map]
  | cons row rest ih =>
    rw [evaluateItems, limitReached_accAfter, push_accAfter, pageRows_cons]
    by_cases hlimit : limitReached limit read.length = true
    · simp [hlimit, keptRows]
    by_cases hfull : 0 < read.length ∧ budget < totalSize itemSizeBytes read + itemSizeBytes row
    · simp [hfull, keptRows]
    simp only [hlimit, hfull, Bool.false_eq_true, if_false, or_self, keptRows]
    cases hpasses : post.passes bd row with
    | error e => rfl
    | ok passed =>
      simp only [Functor.map, Except.map, bind, Except.bind, ih]
      cases post.keptRows bd (pageRows budget limit (read ++ [row]) rest) with
      | error e => rfl
      | ok more =>
        cases passed <;> simp [pure, Except.pure]

theorem pageRows_isPrefix (read rest) : pageRows budget limit read rest <+: rest :=
  takePage_isPrefix ..

theorem pageRows_append_of_eq {read chunk} (h : pageRows budget limit read chunk = chunk) (left) :
    pageRows budget limit read (chunk ++ left) =
      chunk ++ pageRows budget limit (read ++ chunk) left := by
  rw [pageRows, takePage_append_of_eq h, pageRows]
  simp [totalSize]

def pageOf (taken rest kept : List Item) : PageReadResult :=
  (post.accAfter taken kept).finish post (limitReached limit taken.length || decide (taken ≠ rest))

end

/-! ## The loop -/

theorem one_le_chunkSize (budget) (limit acc) : 1 ≤ chunkSize budget limit acc := by
  have hnext : 1 ≤ acc.nextChunk budget := by
    simp only [nextChunk]
    split
    · decide
    · exact le_trans (by decide) (le_max_left minChunk _)
  cases limit with
  | none => exact hnext
  | some l => exact le_max_right _ _

section

variable {σ : Type} {bd : BigDecimalCrate} (budget : Nat) (limit : Option Int) {post : PostRead}
  {fetch : Fetch σ}

theorem afterChunk_accAfter {visited read chunk left last}
    (hkeys : DistinctKeys post.cursorKey (visited ++ read ++ chunk))
    (hsize : ∀ row ∈ left, 0 < itemSizeBytes row) (hlast : last.isSome = true ↔ left ≠ [])
    (hempty : chunk = [] → left = []) (kept) :
    (pageRows budget limit (read ++ chunk) left = [] ∧
      afterChunk budget limit post (cursorAt post.cursorKey (visited ++ read)) chunk last
          (post.accAfter (read ++ chunk) kept) =
        .ok (.finished ((post.accAfter (read ++ chunk) kept).finish post
          (limitReached limit (read ++ chunk).length || decide (left ≠ []))))) ∨
    (chunk ≠ [] ∧
      afterChunk budget limit post (cursorAt post.cursorKey (visited ++ read)) chunk last
          (post.accAfter (read ++ chunk) kept) =
        .ok (.readOn (cursorAt post.cursorKey (visited ++ (read ++ chunk))))) := by
  rw [afterChunk]
  by_cases hlimit : (post.accAfter (read ++ chunk) kept).limitReached limit = true
  · have hreached : limitReached limit (read ++ chunk).length = true := hlimit
    refine .inl ⟨takePage_eq_nil_of_limitReached hreached left, ?_⟩
    rw [if_pos hlimit, hreached, Bool.true_or]
  have hopen : limitReached limit (read ++ chunk).length = false := by
    simpa using hlimit
  rw [if_neg hlimit, hopen, Bool.false_or]
  by_cases hbudget : budget ≤ (post.accAfter (read ++ chunk) kept).evaluatedBytes
  · refine .inl ⟨?_, ?_⟩
    · by_cases hchunk : chunk = []
      · rw [hempty hchunk]
        rfl
      have hpos := length_pos_of_ne_nil hchunk
      refine takePage_eq_nil_of_budget_le ?_ hbudget hsize
      rw [length_append]
      omega
    · have hmore : last.isSome = decide (left ≠ []) := by
        rw [Bool.eq_iff_iff, hlast, decide_eq_true_iff]
      rw [if_pos hbudget, hmore]
  rw [if_neg hbudget]
  cases last with
  | none =>
    have hleft : left = [] := by simpa using hlast
    subst hleft
    exact .inl ⟨rfl, by simp⟩
  | some key =>
    have hchunk : chunk ≠ [] := fun hnil => hlast.mp rfl (hempty hnil)
    have hnext : chunk.getLast?.map (extractKey · post.lekKeySchema) =
        cursorAt post.cursorKey (visited ++ read ++ chunk) :=
      (cursorAt_append post.cursorKey (visited ++ read) hchunk).symm
    have hsome : (chunk.getLast?.map (extractKey · post.lekKeySchema)).isNone = false := by
      simp [getLast?_eq_getLast_of_ne_nil hchunk]
    have hmoves := cursorAt_append_ne hchunk hkeys
    refine .inr ⟨hchunk, ?_⟩
    rw [← append_assoc, ← hnext]
    rw [← hnext] at hmoves
    simp [hsome, hmoves]

/-- The loop, once `read` is on the page behind the rows `visited` of earlier pages: the page ends
up with the run of rows that fits, whatever chunks they come in. -/
theorem readLoop_eq {visited read rest}
    (hfetch : ReadsChunks post.cursorKey (visited ++ read ++ rest) fetch)
    (hkeys : DistinctKeys post.cursorKey (visited ++ read ++ rest))
    (hsize : ∀ row ∈ rest, 0 < itemSizeBytes row) {fuel} (hfuel : rest.length < fuel) (kept) (s) :
    ∃ s', readLoop bd budget limit post fetch fuel (post.accAfter read kept)
        (cursorAt post.cursorKey (visited ++ read)) s =
      some ((fun more => ((post.accAfter (read ++ pageRows budget limit read rest)
          (kept ++ more)).finish post
            (limitReached limit (read ++ pageRows budget limit read rest).length ||
              decide (pageRows budget limit read rest ≠ rest)), s')) <$>
        post.keptRows bd (pageRows budget limit read rest)) := by
  induction fuel generalizing read rest kept s with
  | zero => omega
  | succ fuel ih =>
    obtain ⟨chunk, left, last, s', hread, rfl, hlast, hempty⟩ :=
      hfetch.next hkeys (one_le_chunkSize budget limit (post.accAfter read kept)) s
    rw [readLoop, hread]
    simp only [evaluateItems_accAfter]
    by_cases hall : pageRows budget limit read chunk = chunk
    · rw [pageRows_append_of_eq _ _ hall, keptRows_append, hall]
      cases hkept : post.keptRows bd chunk with
      | error e => exact ⟨s', rfl⟩
      | ok more =>
        rw [← append_assoc] at hkeys hfetch
        have hkeys' : DistinctKeys post.cursorKey (visited ++ read ++ chunk) :=
          (pairwise_append.mp hkeys).1
        have hsize' : ∀ row ∈ left, 0 < itemSizeBytes row :=
          fun row hrow => hsize row (by simp [hrow])
        simp only [Functor.map, Except.map, if_true]
        rcases afterChunk_accAfter budget limit hkeys' hsize' hlast hempty (kept ++ more) with
          ⟨hstop, hafter⟩ | ⟨hchunk, hafter⟩
        · refine ⟨s', ?_⟩
          simp [hafter, hstop, keptRows]
        rw [append_assoc visited] at hkeys hfetch
        have hpos := length_pos_of_ne_nil hchunk
        rw [length_append] at hfuel
        obtain ⟨s'', hloop⟩ := ih hfetch hkeys hsize' (by omega) (kept ++ more) s'
        refine ⟨s'', ?_⟩
        rw [hafter]
        simp only [hloop]
        cases post.keptRows bd (pageRows budget limit (read ++ chunk) left) with
        | error e => rfl
        | ok rest => simp [Functor.map, Except.map, pure, Except.pure]
    · -- the page ends inside the chunk
      have htake : pageRows budget limit read (chunk ++ left) =
          pageRows budget limit read chunk := takePage_append_of_ne hall left
      have hne : pageRows budget limit read chunk ≠ chunk ++ left := by
        intro heq
        have hlen := (pageRows_isPrefix budget limit read chunk).length_le
        rw [heq, length_append] at hlen
        have hleft : left = [] := eq_nil_of_length_eq_zero (by omega)
        exact hall (by rw [heq, hleft, append_nil])
      refine ⟨s', ?_⟩
      rw [htake]
      cases post.keptRows bd (pageRows budget limit read chunk) with
      | error e => rfl
      | ok more => simp [Functor.map, Except.map, hall, hne]

variable (bd post) in
/-- A page that starts behind the rows `visited` evaluates the run of the rest that fits. -/
theorem readPage_eq {visited rest} (hfetch : ReadsChunks post.cursorKey (visited ++ rest) fetch)
    (hkeys : DistinctKeys post.cursorKey (visited ++ rest))
    (hsize : ∀ row ∈ rest, 0 < itemSizeBytes row) {fuel} (hfuel : rest.length < fuel) (s) :
    ∃ s', readPage bd budget limit post fetch fuel (cursorAt post.cursorKey visited) s =
      some ((fun kept => (pageOf limit post (pageRows budget limit [] rest) rest kept, s')) <$>
        post.keptRows bd (pageRows budget limit [] rest)) := by
  rw [← append_nil visited] at hfetch hkeys
  obtain ⟨s', hloop⟩ := readLoop_eq budget limit hfetch hkeys hsize hfuel [] s
  rw [append_nil, accAfter_nil] at hloop
  exact ⟨s', hloop⟩

end

end ExtendDb
