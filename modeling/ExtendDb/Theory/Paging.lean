import Mathlib.Algebra.GroupWithZero.Nat
import Mathlib.Data.List.Basic
import Mathlib.Data.List.TakeDrop

/-!
# Reading a list in pages and chunks

Rows are read in order from behind a cursor, the key of a row already read.  A page is the longest
run of rows within a limit on their number and a budget on their sizes, except that the first row
of a page is always taken.
-/

namespace Paging

open List

variable {α κ ε σ : Type}

/-! ## Cursors -/

def after [DecidableEq κ] (key : α → κ) (rows : List α) : Option κ → List α
  | none => rows
  | some k => (rows.dropWhile fun r => decide (key r ≠ k)).tail

def cursorAt (key : α → κ) (read : List α) : Option κ := read.getLast?.map key

def DistinctKeys (key : α → κ) (rows : List α) : Prop :=
  rows.Pairwise fun a b => key a ≠ key b

theorem cursorAt_concat (key : α → κ) (read) (x) : cursorAt key (read ++ [x]) = some (key x) := by
  simp [cursorAt]

theorem cursorAt_append (key : α → κ) (earlier) {later} (h : later ≠ []) :
    cursorAt key (earlier ++ later) = cursorAt key later := by
  simp [cursorAt, getLast?_eq_getLast_of_ne_nil h]

variable {key : α → κ}

theorem after_cursorAt [DecidableEq κ] {read rest} (h : DistinctKeys key (read ++ rest)) :
    after key (read ++ rest) (cursorAt key read) = rest := by
  obtain rfl | ⟨init, x, rfl⟩ := eq_nil_or_concat' read
  · rfl
  rw [cursorAt_concat, after]
  rw [DistinctKeys, append_assoc, pairwise_append] at h
  have hinit : ∀ r ∈ init, decide (key r ≠ key x) = true := fun r hr => by
    simpa using h.2.2 r hr x (by simp)
  rw [append_assoc, dropWhile_append_of_pos hinit]
  simp

theorem cursorAt_append_ne {read chunk} (hchunk : chunk ≠ []) (h : DistinctKeys key (read ++ chunk)) :
    cursorAt key (read ++ chunk) ≠ cursorAt key read := by
  obtain ⟨init, x, rfl⟩ := (eq_nil_or_concat' chunk).resolve_left hchunk
  rw [← append_assoc, cursorAt_concat]
  intro heq
  obtain ⟨r, hlast, hkey⟩ := Option.map_eq_some_iff.mp heq.symm
  have hr : r ∈ read := mem_of_getLast? hlast
  exact (pairwise_append.mp h).2.2 r hr x (by simp) hkey

/-! ## Chunks -/

/-- A read returns some of the rows behind the cursor, at least one if there are any, and reports a
last key exactly when it leaves rows behind. -/
structure ReadsChunks [DecidableEq κ] (key : α → κ) (rows : List α)
    (fetch : Option κ → Int → σ → Except ε ((List α × Option κ) × σ)) : Prop where
  reads : ∀ read rest, rows = read ++ rest → ∀ count s, 1 ≤ count →
    ∃ chunk last s', fetch (cursorAt key read) count s = .ok ((chunk, last), s') ∧
      chunk <+: after key rows (cursorAt key read) ∧
      (last.isSome = true ↔ chunk ≠ after key rows (cursorAt key read)) ∧
      (chunk = [] → after key rows (cursorAt key read) = [])

theorem ReadsChunks.next [DecidableEq κ] {read rest}
    {fetch : Option κ → Int → σ → Except ε ((List α × Option κ) × σ)}
    (h : ReadsChunks key (read ++ rest) fetch) (hkeys : DistinctKeys key (read ++ rest)) {count}
    (hcount : 1 ≤ count) (s) :
    ∃ chunk left last s', fetch (cursorAt key read) count s = .ok ((chunk, last), s') ∧
      rest = chunk ++ left ∧ (last.isSome = true ↔ left ≠ []) ∧ (chunk = [] → left = []) := by
  obtain ⟨chunk, last, s', hfetch, hchunk, hlast, hempty⟩ := h.reads read rest rfl count s hcount
  rw [after_cursorAt hkeys] at hchunk hlast hempty
  obtain ⟨left, rfl⟩ := hchunk
  refine ⟨chunk, left, last, s', hfetch, rfl, ?_, fun hnil => ?_⟩
  · rw [hlast, ne_eq, self_eq_append_right]
  · simpa [hnil] using hempty hnil

def readNext [DecidableEq κ] (key : α → κ) (rows : List α) (cursor : Option κ) (count : Int)
    (s : σ) : Except ε ((List α × Option κ) × σ) :=
  let rest := after key rows cursor
  let chunk := rest.take count.toNat
  .ok ((chunk, if chunk.length < rest.length then cursorAt key chunk else none), s)

theorem readsChunks_readNext [DecidableEq κ] (key : α → κ) (rows) :
    ReadsChunks key rows (readNext (ε := ε) (σ := σ) key rows) where
  reads := by
    intro read rest _ count s hcount
    refine ⟨_, _, s, rfl, take_prefix _ _, ?_, ?_⟩
    · generalize after key rows (cursorAt key read) = rest
      rw [ne_eq, take_eq_self_iff, length_take]
      have hne (h : count.toNat < rest.length) :
          (cursorAt key (rest.take count.toNat)).isSome = true := by
        have : rest.take count.toNat ≠ [] := by
          rw [← length_pos_iff, length_take]
          omega
        simp [cursorAt, this]
      split
      · simp only [hne (by omega), true_iff]
        omega
      · simp only [Option.isSome_none, Bool.false_eq_true, false_iff]
        omega
    · intro hnil
      rw [take_eq_nil_iff] at hnil
      exact hnil.resolve_left (by omega)

/-! ## Segments -/

theorem segments_perm {ι : Type} {segments : List ι} (hnodup : segments.Nodup) {p : ι → α → Bool}
    {rows} (hone : ∀ x ∈ rows, ∃ s ∈ segments, ∀ s' ∈ segments, p s' x = true ↔ s' = s) :
    (segments.flatMap fun s => rows.filter (p s)).Perm rows := by
  -- along the rows: each is put in front of one segment
  induction rows with
  | nil => simp
  | cons x rows ih =>
    obtain ⟨s, hs, hin⟩ := hone x (.head _)
    have hrest := ih fun y hy => hone y (.tail _ hy)
    refine .trans ?_ (.cons x hrest)
    obtain ⟨before, behind, rfl⟩ := append_of_mem hs
    obtain ⟨-, hbehind, hdisjoint⟩ := nodup_append.mp hnodup
    have hother : ∀ others : List ι, (∀ s' ∈ others, s' ∈ before ++ s :: behind ∧ s' ≠ s) →
        others.flatMap (fun s' => (x :: rows).filter (p s')) =
          others.flatMap (fun s' => rows.filter (p s')) := by
      intro others hothers
      refine flatMap_congr fun s' hs' => ?_
      obtain ⟨hmem, hne⟩ := hothers s' hs'
      exact filter_cons_of_neg fun h => hne ((hin s' hmem).mp h)
    rw [flatMap_append, flatMap_append, flatMap_cons, flatMap_cons,
      hother before fun s' hs' => ⟨mem_append_left _ hs', hdisjoint s' hs' s (.head _)⟩,
      hother behind fun s' hs' => ⟨mem_append_right _ (.tail _ hs'),
        fun heq => (nodup_cons.mp hbehind).1 (heq ▸ hs')⟩,
      filter_cons_of_pos ((hin s hs).mpr rfl)]
    exact perm_middle

/-! ## Pages -/

section

variable (limit : Option Int) (budget : Nat) (size : α → Nat)

/-- The page already has as many rows as the limit allows. -/
def limitReached (count : Nat) : Bool := limit.any fun l => decide ((count : Int) ≥ l)

def takePage : Nat → Nat → List α → List α
  | _, _, [] => []
  | count, bytes, x :: xs =>
    if limitReached limit count ∨ (0 < count ∧ budget < bytes + size x) then []
    else x :: takePage (count + 1) (bytes + size x) xs

def totalSize (xs : List α) : Nat := (xs.map size).sum

variable {limit budget size}

@[simp]
theorem takePage_nil (count bytes) : takePage limit budget size count bytes [] = [] := rfl

theorem takePage_isPrefix (count bytes) (xs) :
    takePage limit budget size count bytes xs <+: xs := by
  induction xs generalizing count bytes with
  | nil => exact prefix_rfl
  | cons x xs ih =>
    rw [takePage]
    split
    · exact nil_prefix
    · exact cons_prefix_cons.mpr ⟨rfl, ih _ _⟩

variable {xs : List α} {bytes : Nat}

theorem takePage_append_of_eq {count} (h : takePage limit budget size count bytes xs = xs) (ys) :
    takePage limit budget size count bytes (xs ++ ys) =
      xs ++ takePage limit budget size (count + xs.length) (bytes + totalSize size xs) ys := by
  induction xs generalizing count bytes with
  | nil => simp [totalSize]
  | cons x xs ih =>
    simp only [takePage] at h
    split at h
    · cases h
    · rename_i hopen
      rw [cons_append, takePage, if_neg hopen, ih (cons.inj h).2]
      simp [totalSize, Nat.add_assoc, Nat.add_comm 1]

theorem takePage_append_of_ne {count} (h : takePage limit budget size count bytes xs ≠ xs) (ys) :
    takePage limit budget size count bytes (xs ++ ys) =
      takePage limit budget size count bytes xs := by
  induction xs generalizing count bytes with
  | nil => exact absurd rfl h
  | cons x xs ih =>
    rw [takePage] at h
    rw [cons_append, takePage, takePage]
    split
    · rfl
    · rename_i hopen
      rw [if_neg hopen] at h
      rw [ih fun heq => h (by rw [heq])]

theorem takePage_eq_nil_of_limitReached {count} (h : limitReached limit count = true) (xs) :
    takePage limit budget size count bytes xs = [] := by
  cases xs with
  | nil => rfl
  | cons x xs => simp [takePage, h]

theorem takePage_eq_nil_of_budget_le {count} (hcount : 0 < count) (hbytes : budget ≤ bytes)
    (hsize : ∀ x ∈ xs, 0 < size x) :
    takePage limit budget size count bytes xs = [] := by
  cases xs with
  | nil => rfl
  | cons x xs =>
    have hx : budget < bytes + size x := by
      have := hsize x (by simp)
      omega
    simp [takePage, hcount, hx]

theorem takePage_ne_nil (hlimit : ∀ l, limit = some l → 1 ≤ l)
    (hxs : xs ≠ []) : takePage limit budget size 0 bytes xs ≠ [] := by
  cases xs with
  | nil => exact absurd rfl hxs
  | cons x xs =>
    have hopen : limitReached limit 0 = false := by
      cases limit with
      | none => rfl
      | some l =>
        have := hlimit l rfl
        simp [limitReached]
        omega
    simp [takePage, hopen]

end

end Paging
