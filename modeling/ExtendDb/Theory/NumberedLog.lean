import Mathlib.Data.List.Pairwise
import Mathlib.Data.List.Sort

/-!
# Following a numbered log

Records with numbers, or other keys in a linear order, are added to a log in any order.  A reader
asks for the records above the last key it was given, in ascending order and at most so many at a
time.
-/

namespace NumberedLog

open List Option

variable {α κ : Type} [LinearOrder κ] (seq : α → κ)

def Above (cursor : Option κ) (n : κ) : Prop := ∀ c, cursor = some c → c < n

instance (cursor : Option κ) (n : κ) : Decidable (Above cursor n) :=
  match cursor with
  | none => isTrue fun _ h => nomatch h
  | some c => decidable_of_iff (c < n) ⟨fun h _ hc => by cases hc; exact h, fun h => h c rfl⟩

def rowsAbove (log : List α) (cursor : Option κ) : List α :=
  (log.filter fun x => Above cursor (seq x)).insertionSort fun a b => seq a ≤ seq b

def page (log : List α) (cursor : Option κ) (limit : ℕ) : List α :=
  (rowsAbove seq log cursor).take limit

/-- The last key a reader was given, and what it was given. -/
structure Reader (α κ : Type) where
  cursor : Option κ
  got : List α

/-- A reader before its first poll. -/
def Reader.fresh : Reader α κ := ⟨none, []⟩

def Reader.poll (r : Reader α κ) (log : List α) (limit : ℕ) : Reader α κ where
  cursor := (((page seq log r.cursor limit).getLast?).map seq).or r.cursor
  got := r.got ++ page seq log r.cursor limit

/-- No two records have the same key. -/
def Distinct (log : List α) : Prop := log.Pairwise fun a b => seq a ≠ seq b

structure Reader.Follows (r : Reader α κ) (log : List α) : Prop where
  ascending : r.got.Pairwise fun a b => seq a < seq b
  passed : ∀ x ∈ r.got, ¬ Above r.cursor (seq x)
  sound : ∀ x ∈ r.got, x ∈ log
  complete : ∀ x ∈ log, x ∈ r.got ∨ Above r.cursor (seq x)

variable {seq} {log : List α} {r : Reader α κ} {x : α} {limit : ℕ}

theorem Reader.follows_fresh : (Reader.fresh : Reader α κ).Follows seq log where
  ascending := List.Pairwise.nil
  passed _ h := nomatch h
  sound _ h := nomatch h
  complete _ _ := Or.inr fun _ h => nomatch h

theorem Reader.Follows.add (h : r.Follows seq log) (hx : Above r.cursor (seq x)) :
    r.Follows seq (x :: log) where
  ascending := h.ascending
  passed := h.passed
  sound y hy := mem_cons_of_mem _ (h.sound y hy)
  complete y hy := by
    rcases mem_cons.mp hy with rfl | hy
    · exact .inr hx
    · exact h.complete y hy

theorem Reader.Follows.append (h : r.Follows seq log) {new : List α}
    (hnew : ∀ x ∈ new, Above r.cursor (seq x)) : r.Follows seq (new ++ log) := by
  induction new with
  | nil => exact h
  | cons x new ih =>
    exact (ih fun y hy => hnew y (.tail _ hy)).add (hnew x (.head _))

omit [LinearOrder κ] in
theorem Distinct.eq_of_seq_eq (h : Distinct seq log) {y} (hx : x ∈ log) (hy : y ∈ log)
    (heq : seq x = seq y) : x = y := by
  have : Std.Symm (fun a b : α => seq a ≠ seq b) := ⟨fun _ _ hne => hne.symm⟩
  by_contra hne
  exact List.Pairwise.forall h hx hy hne heq

variable {cursor : Option κ}

theorem mem_rowsAbove : x ∈ rowsAbove seq log cursor ↔ x ∈ log ∧ Above cursor (seq x) := by
  rw [rowsAbove, mem_insertionSort, mem_filter, decide_eq_true_eq]

theorem mem_page (h : x ∈ page seq log r.cursor limit) : x ∈ log ∧ Above r.cursor (seq x) :=
  mem_rowsAbove.mp (mem_of_mem_take h)

theorem sorted_above (hdistinct : Distinct seq log) (cursor) :
    (rowsAbove seq log cursor).Pairwise (fun a b => seq a < seq b) := by
  have hle := pairwise_insertionSort (fun a b : α => seq a ≤ seq b)
    (log.filter fun x => Above cursor (seq x))
  have hne : (rowsAbove seq log cursor).Pairwise (fun a b => seq a ≠ seq b) :=
    ((perm_insertionSort _ _).pairwise_iff fun h => h.symm).mpr (hdistinct.filter _)
  exact (hle.and hne).imp fun h => lt_of_le_of_ne h.1 h.2

theorem rowsAbove_eq (hdistinct : Distinct seq log) {rows}
    (hsorted : rows.Pairwise fun a b => seq a < seq b)
    (hmem : ∀ x, x ∈ rows ↔ x ∈ log ∧ Above cursor (seq x)) : rowsAbove seq log cursor = rows := by
  refine List.Pairwise.eq_of_mem_iff (sorted_above hdistinct cursor) hsorted fun x => ?_
  rw [mem_rowsAbove, hmem]

theorem lt_of_not_mem_page (hdistinct : Distinct seq log) (hx : x ∈ log)
    (habove : Above r.cursor (seq x)) (hnot : x ∉ page seq log r.cursor limit) :
    ∀ y ∈ page seq log r.cursor limit, seq y < seq x := by
  intro y hy
  have hsorted := sorted_above hdistinct r.cursor
  have hmem : x ∈ rowsAbove seq log r.cursor := mem_rowsAbove.mpr ⟨hx, habove⟩
  rw [← take_append_drop limit (rowsAbove seq log r.cursor)] at hmem hsorted
  have hdrop := (mem_append.mp hmem).resolve_left hnot
  exact (pairwise_append.mp hsorted).2.2 y hy x hdrop

theorem Reader.poll_cursor (seq : α → κ) (r : Reader α κ) (log) (limit) :
    (page seq log r.cursor limit = [] ∧ (r.poll seq log limit).cursor = r.cursor) ∨
    ∃ last ∈ page seq log r.cursor limit, (r.poll seq log limit).cursor = some (seq last) := by
  unfold poll
  cases hlast : (page seq log r.cursor limit).getLast? with
  | none => exact .inl ⟨getLast?_eq_none_iff.mp hlast, by simp⟩
  | some last => exact .inr ⟨last, mem_of_getLast? hlast, by simp⟩

theorem le_last (hdistinct : Distinct seq log) {last}
    (hlast : (page seq log r.cursor limit).getLast? = some last) :
    ∀ y ∈ page seq log r.cursor limit, seq y ≤ seq last := by
  intro y hy
  have hsorted : (page seq log r.cursor limit).Pairwise (fun a b => seq a < seq b) :=
    (sorted_above hdistinct r.cursor).sublist (take_sublist _ _)
  obtain ⟨init, hinit⟩ := getLast?_eq_some_iff.mp hlast
  rw [hinit] at hy hsorted
  rcases mem_append.mp hy with hy | hy
  · exact le_of_lt ((pairwise_append.mp hsorted).2.2 y hy last (.head _))
  · rw [mem_singleton.mp hy]

theorem Reader.Follows.poll (h : r.Follows seq log) (hdistinct : Distinct seq log) (limit : ℕ) :
    (r.poll seq log limit).Follows seq log := by
  have hpage : (page seq log r.cursor limit).Pairwise (fun a b => seq a < seq b) :=
    (sorted_above hdistinct r.cursor).sublist (take_sublist _ _)
  -- what was read before lies at or below the old cursor, the page above it
  have hbefore : ∀ a ∈ r.got, ∀ y ∈ page seq log r.cursor limit, seq a < seq y := by
    intro a ha y hy
    by_contra hle
    exact h.passed a ha fun c hc => lt_of_lt_of_le ((mem_page hy).2 c hc) (not_lt.mp hle)
  refine ⟨pairwise_append.mpr ⟨h.ascending, hpage, hbefore⟩, ?_, ?_, ?_⟩
  · intro y hy habove
    rcases hlast : (page seq log r.cursor limit).getLast? with _ | last
    · have hnil := getLast?_eq_none_iff.mp hlast
      simp only [Reader.poll, hnil, append_nil] at hy
      simp only [Reader.poll, hnil] at habove
      exact h.passed y hy habove
    · simp only [Reader.poll, hlast] at habove
      have hlt := habove (seq last) rfl
      rcases mem_append.mp hy with hy | hy
      · exact absurd (hbefore y hy last (mem_of_getLast? hlast)) (lt_asymm hlt)
      · exact absurd (le_last hdistinct hlast y hy) (not_le_of_gt hlt)
  · intro y hy
    rcases mem_append.mp hy with hy | hy
    · exact h.sound y hy
    · exact (mem_page hy).1
  · intro y hy
    rcases h.complete y hy with hgot | habove
    · exact .inl (mem_append_left _ hgot)
    by_cases hin : y ∈ page seq log r.cursor limit
    · exact .inl (mem_append_right _ hin)
    right
    rcases r.poll_cursor seq log limit with ⟨-, hcursor⟩ | ⟨last, hlast, hcursor⟩
    · rw [hcursor]
      exact habove
    rw [hcursor]
    intro c hc
    cases hc
    exact lt_of_not_mem_page hdistinct hy habove hin last hlast

theorem nodup_of_ascending {rows : List α} (h : rows.Pairwise fun a b => seq a < seq b) :
    rows.Nodup :=
  h.imp fun hlt heq => by
    rw [heq] at hlt
    exact lt_irrefl _ hlt

theorem Reader.Follows.nodup (h : r.Follows seq log) : r.got.Nodup :=
  nodup_of_ascending h.ascending

/-- How far a number is above the cursor. -/
def gap (cursor : Option ℕ) (n : ℕ) : ℕ :=
  match cursor with
  | none => n + 1
  | some c => n - c

theorem gap_pos_iff {cursor n} : 0 < gap cursor n ↔ Above cursor n := by
  cases cursor with
  | none => exact ⟨fun _ _ h => (nomatch h), fun _ => Nat.succ_pos n⟩
  | some c =>
    refine ⟨fun h c' hc => ?_, fun h => ?_⟩
    · cases hc
      exact Nat.lt_of_sub_pos h
    · exact Nat.sub_pos_of_lt (h c rfl)

section

variable {seq : α → ℕ} {r : Reader α ℕ}

theorem Reader.gap_poll (hx : x ∈ log) (hlimit : 1 ≤ limit) (habove : Above r.cursor (seq x)) :
    gap (r.poll seq log limit).cursor (seq x) < gap r.cursor (seq x) := by
  have hmem : x ∈ rowsAbove seq log r.cursor := mem_rowsAbove.mpr ⟨hx, habove⟩
  have hne : page seq log r.cursor limit ≠ [] := by
    intro hnil
    rcases take_eq_nil_iff.mp hnil with hzero | hnil
    · omega
    · rw [hnil] at hmem
      cases hmem
  rcases r.poll_cursor seq log limit with ⟨hnil, -⟩ | ⟨last, hlast, hcursor⟩
  · exact absurd hnil hne
  rw [hcursor]
  have hlastAbove := (mem_page hlast).2
  cases hc : r.cursor with
  | none => simp only [gap]; omega
  | some c =>
    have h₁ := hlastAbove c hc
    have h₂ := habove c hc
    simp only [gap]
    omega

theorem Reader.gap_poll_le (seq : α → ℕ) (r : Reader α ℕ) (log) (limit n) :
    gap (r.poll seq log limit).cursor n ≤ gap r.cursor n := by
  rcases r.poll_cursor seq log limit with ⟨-, hcursor⟩ | ⟨last, hlast, hcursor⟩
  · rw [hcursor]
  rw [hcursor]
  have hlastAbove := (mem_page hlast).2
  cases hc : r.cursor with
  | none => simp only [gap]; omega
  | some c =>
    have := hlastAbove c hc
    simp only [gap]
    omega

theorem Reader.polls_gap_poll (hx : x ∈ log) (hlimit : 1 ≤ limit) {polls bound}
    (hbound : gap r.cursor (seq x) = 0 ∨ polls + gap r.cursor (seq x) ≤ bound) :
    gap (r.poll seq log limit).cursor (seq x) = 0 ∨
      polls + 1 + gap (r.poll seq log limit).cursor (seq x) ≤ bound := by
  have hle := r.gap_poll_le seq log limit (seq x)
  by_cases hzero : gap r.cursor (seq x) = 0
  · exact .inl (by omega)
  · have hlt := gap_poll hx hlimit (gap_pos_iff.mp (Nat.pos_of_ne_zero hzero))
    exact .inr (by omega)

theorem Reader.Follows.mem_got (h : r.Follows seq log) (hx : x ∈ log)
    (hgap : gap r.cursor (seq x) = 0) : x ∈ r.got := by
  refine (h.complete x hx).resolve_right fun habove => ?_
  have := gap_pos_iff.mpr habove
  omega

end

/-! ## Reading a log to its end -/

theorem rowsAbove_last (hdistinct : Distinct seq log) {read rest last}
    (hrows : rowsAbove seq log cursor = read ++ last :: rest) :
    rowsAbove seq log (some (seq last)) = rest := by
  have hsorted := sorted_above hdistinct cursor
  rw [hrows] at hsorted
  obtain ⟨-, htail, hbefore⟩ := pairwise_append.mp hsorted
  obtain ⟨hbehind, hrest⟩ := pairwise_cons.mp htail
  have hlast : last ∈ log ∧ Above cursor (seq last) :=
    mem_rowsAbove.mp (by rw [hrows]; simp)
  refine rowsAbove_eq hdistinct hrest fun x => ⟨fun hx => ?_, fun ⟨hx, habove⟩ => ?_⟩
  · have hxs : x ∈ rowsAbove seq log cursor := by
      rw [hrows]
      simp [hx]
    refine ⟨(mem_rowsAbove.mp hxs).1, fun c hc => ?_⟩
    cases hc
    exact hbehind x hx
  · have hlt := habove (seq last) rfl
    have hxs : x ∈ read ++ last :: rest := by
      rw [← hrows, mem_rowsAbove]
      exact ⟨hx, fun c hc => lt_trans (hlast.2 c hc) hlt⟩
    rcases mem_append.mp hxs with hread | hlater
    · exact absurd (hbefore x hread last (.head _)) (lt_asymm hlt)
    · rcases mem_cons.mp hlater with rfl | hlater
      · exact absurd hlt (lt_irrefl _)
      · exact hlater

end NumberedLog
