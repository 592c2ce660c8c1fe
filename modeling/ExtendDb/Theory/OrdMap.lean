import Mathlib.Order.Lattice
import Mathlib.Data.Prod.Basic
import Mathlib.Data.List.Basic
import Mathlib.Tactic.Cases

/-!
# Ordered maps and sets as strictly ascending lists

A finite map is its list of entries in strictly ascending key order, a finite set its list of
members in strictly ascending order.
-/

namespace OrdMap

open List

variable {κ α : Type*} [LinearOrder κ]

/-- The value stored under `k`. -/
def get? : List (κ × α) → κ → Option α
  | [], _ => none
  | (k', v) :: rest, k => if k' = k then some v else get? rest k

/-- Store `v` under `k`, replacing what was there. -/
def insert : List (κ × α) → κ → α → List (κ × α)
  | [], k, v => [(k, v)]
  | (k', v') :: rest, k, v =>
    if k < k' then (k, v) :: (k', v') :: rest
    else if k = k' then (k, v) :: rest
    else (k', v') :: insert rest k v

/-- Drop the entry under `k`. -/
def erase (m : List (κ × α)) (k : κ) : List (κ × α) :=
  m.filter fun e => decide (e.1 ≠ k)

/-- The map holding the last value listed for each key. -/
def ofList (entries : List (κ × α)) : List (κ × α) :=
  entries.foldl (fun m e => insert m e.1 e.2) []

/-- Keys are in strictly ascending order. -/
def Ascending (m : List (κ × α)) : Prop :=
  m.Pairwise fun a b => a.1 < b.1

variable {k : κ} {m : List (κ × α)}

theorem mem_of_get? {v} (h : get? m k = some v) : (k, v) ∈ m := by
  induction m with
  | nil => simp [get?] at h
  | cons e rest ih =>
    obtain ⟨k', v'⟩ := e
    simp only [get?] at h
    split at h
    · rename_i hk
      cases h
      simp [hk]
    · exact .tail _ (ih h)

variable {e : κ × α}

theorem mem_insert {v} (h : e ∈ insert m k v) : e = (k, v) ∨ e ∈ m := by
  induction m with
  | nil => simpa [insert] using h
  | cons e' rest ih =>
    simp only [insert] at h
    split at h
    · simpa using h
    split at h
    · rcases mem_cons.mp h with rfl | hrest
      · exact .inl rfl
      · exact .inr (.tail _ hrest)
    · rcases mem_cons.mp h with rfl | hrest
      · exact .inr (mem_cons_self ..)
      · exact (ih hrest).imp_right (mem_cons_of_mem _)

theorem mem_insert_self (m) (k : κ) (v : α) : (k, v) ∈ insert m k v := by
  induction m with
  | nil => simp [insert]
  | cons e rest ih =>
    simp only [insert]
    split
    · exact (.head _) ..
    · split
      · exact (.head _) ..
      · exact .tail _ ih

theorem mem_erase (h : e ∈ erase m k) : e ∈ m :=
  mem_of_mem_filter h

@[simp]
theorem get?_nil (k) : get? ([] : List (κ × α)) k = none := rfl

@[simp]
theorem get?_insert_self (m) (k : κ) (v : α) : get? (insert m k v) k = some v := by
  induction m with
  | nil => simp [insert, get?]
  | cons e rest ih =>
    simp only [insert]
    split
    · simp [get?]
    split
    · simp [get?]
    · rename_i hne
      rw [get?, if_neg fun h => hne h.symm, ih]

theorem get?_insert_of_ne (m) {k'} (v : α) (hne : k ≠ k') : get? (insert m k v) k' = get? m k' := by
  induction m with
  | nil => simp [insert, get?, hne]
  | cons e rest ih =>
    simp only [insert]
    split
    · simp [get?, hne]
    split
    · rename_i hk
      simp [get?, hne, ← hk]
    · simp [get?, ih]

theorem get?_erase_of_ne (m : List (κ × α)) {k'} (hne : k ≠ k') :
    get? (erase m k) k' = get? m k' := by
  induction m with
  | nil => rfl
  | cons e rest ih =>
    obtain ⟨k₁, v⟩ := e
    by_cases hk : k₁ = k
    · subst hk
      simpa [erase, get?, hne] using ih
    rw [erase, filter_cons_of_pos (by simpa using hk), get?, get?]
    split
    · rfl
    · exact ih

variable {entries : List (κ × α)}

theorem mem_foldl_insert
    (h : e ∈ entries.foldl (fun m e => insert m e.1 e.2) m) : e ∈ m ∨ e ∈ entries := by
  induction entries generalizing m with
  | nil => exact .inl h
  | cons x rest ih =>
    rcases ih h with hm | hrest
    · rcases mem_insert hm with rfl | hm
      · exact .inr (mem_cons_self ..)
      · exact .inl hm
    · exact .inr (.tail _ hrest)

theorem mem_ofList (h : e ∈ ofList entries) : e ∈ entries :=
  (mem_foldl_insert h).resolve_left (by simp)

theorem get?_eq_of_mem (hm : (m.map Prod.fst).Nodup) (he : e ∈ m) : get? m e.1 = some e.2 := by
  induction m with
  | nil => cases he
  | cons e' rest ih =>
    obtain ⟨k', v'⟩ := e'
    rw [map_cons, nodup_cons] at hm
    rcases mem_cons.mp he with rfl | hmem
    · simp [get?]
    · rw [get?, if_neg ?_, ih hm.2 hmem]
      rintro rfl
      exact hm.1 (mem_map.mpr ⟨e, hmem, rfl⟩)

theorem insert_of_forall_lt (v) (h : ∀ e ∈ m, e.1 < k) : insert m k v = m ++ [(k, v)] := by
  induction m with
  | nil => rfl
  | cons e rest ih =>
    have hk : e.1 < k := h e (by simp)
    rw [insert, if_neg (not_lt_of_gt hk), if_neg (ne_of_gt hk),
      ih fun e' he' => h e' (.tail _ he'), cons_append]

theorem foldl_insert_of_ascending (h : Ascending (m ++ entries)) :
    entries.foldl (fun m e => insert m e.1 e.2) m = m ++ entries := by
  induction entries generalizing m with
  | nil => simp
  | cons e rest ih =>
    have hlt : ∀ x ∈ m, x.1 < e.1 := fun x hx =>
      (pairwise_append.mp h).2.2 x hx e (by simp)
    rw [append_cons] at h
    rw [foldl_cons, insert_of_forall_lt e.2 hlt, ih h, ← append_cons]

theorem ofList_of_ascending (h : Ascending entries) : ofList entries = entries :=
  foldl_insert_of_ascending h

theorem length_insert (v) (h : get? m k = none) : (insert m k v).length = m.length + 1 := by
  induction m with
  | nil => rfl
  | cons e rest ih =>
    simp only [get?] at h
    split at h
    · cases h
    rename_i hne
    simp only [insert]
    split
    · rfl
    · rw [if_neg fun heq => hne heq.symm, length_cons, ih h, length_cons]

theorem Ascending.insert (h : Ascending m) (k v) : Ascending (insert m k v) := by
  induction m with
  | nil => exact pairwise_singleton ..
  | cons e rest ih =>
    obtain ⟨hlt, hrest⟩ := pairwise_cons.mp h
    rw [OrdMap.insert]
    split
    · rename_i hk
      refine pairwise_cons.mpr ⟨fun e' he' => ?_, h⟩
      rcases mem_cons.mp he' with rfl | he'
      · exact hk
      · exact hk.trans (hlt e' he')
    split
    · rename_i hk
      subst hk
      exact pairwise_cons.mpr ⟨hlt, hrest⟩
    rename_i hnlt hne
    refine pairwise_cons.mpr ⟨fun e' he' => ?_, ih hrest⟩
    rcases mem_insert he' with rfl | he'
    · exact lt_of_le_of_ne (not_lt.mp hnlt) (.symm hne)
    · exact hlt e' he'

theorem get?_eq_none_of_forall_ne (h : ∀ e ∈ m, e.1 ≠ k) : get? m k = none := by
  induction m with
  | nil => rfl
  | cons e rest ih =>
    rw [get?, if_neg (h e (.head _)), ih fun e' he' => h e' (.tail _ he')]

theorem get?_eq_none_of_lt (h : ∀ e ∈ m, k < e.1) : get? m k = none :=
  get?_eq_none_of_forall_ne fun e he => (h e he).ne'

/-- Maps with the same content are equal. -/
theorem ext {m'} (hm : Ascending m) (hm' : Ascending m') (h : ∀ k, get? m k = get? m' k) :
    m = m' := by
  induction m generalizing m' with
  | nil =>
    cases m' with
    | nil => rfl
    | cons e rest => simpa [get?] using h e.1
  | cons e rest ih =>
    cases m' with
    | nil => simpa [get?] using h e.1
    | cons e' rest' =>
      obtain ⟨k, v⟩ := e
      obtain ⟨k', v'⟩ := e'
      obtain ⟨hlt, hrest⟩ := pairwise_cons.mp hm
      obtain ⟨hlt', hrest'⟩ := pairwise_cons.mp hm'
      rcases lt_trichotomy k k' with hk | rfl | hk
      · have hnone : get? ((k', v') :: rest') k = none :=
          get?_eq_none_of_lt (forall_mem_cons.mpr ⟨hk, fun e he => hk.trans (hlt' e he)⟩)
        rw [← h k, get?, if_pos rfl] at hnone
        cases hnone
      · have hv := h k
        rw [get?, get?, if_pos rfl, if_pos rfl, Option.some.injEq] at hv
        rw [hv, ih hrest hrest' fun j => ?_]
        by_cases hj : k = j
        · subst hj
          rw [get?_eq_none_of_lt hlt, get?_eq_none_of_lt hlt']
        · have := h j
          rwa [get?, get?, if_neg hj, if_neg hj] at this
      · have hnone : get? ((k, v) :: rest) k' = none :=
          get?_eq_none_of_lt (forall_mem_cons.mpr ⟨hk, fun e he => hk.trans (hlt e he)⟩)
        rw [h k', get?, if_pos rfl] at hnone
        cases hnone

section

variable {β : Type*} (f : κ → α → Option β)

/-- The entries with the values that `f` returns. -/
def filterMap (m : List (κ × α)) : List (κ × β) := m.filterMap fun e => (f e.1 e.2).map (e.1, ·)

omit [LinearOrder κ] in
theorem filterMap_cons (k v) (m : List (κ × α)) :
    filterMap f ((k, v) :: m) = ((f k v).map (k, ·)).toList ++ filterMap f m := by
  rw [filterMap, List.filterMap_cons]
  cases f k v <;> rfl

omit [LinearOrder κ] in
variable {f} in
theorem filterMap_congr {g} (h : ∀ e ∈ m, f e.1 e.2 = g e.1 e.2) : filterMap f m = filterMap g m :=
  List.filterMap_congr fun e he => by rw [h e he]

omit [LinearOrder κ] in
theorem mem_filterMap {e} (h : e ∈ filterMap f m) : ∃ v, (e.1, v) ∈ m := by
  obtain ⟨e', he', heq⟩ := List.mem_filterMap.mp h
  obtain ⟨w, -, rfl⟩ := Option.map_eq_some_iff.mp heq
  exact ⟨e'.2, he'⟩

theorem Ascending.filterMap (h : Ascending m) : Ascending (filterMap f m) := by
  induction m with
  | nil => exact .nil
  | cons e rest ih =>
    obtain ⟨hlt, hrest⟩ := pairwise_cons.mp h
    rw [filterMap_cons]
    cases f e.1 e.2 with
    | none => exact ih hrest
    | some w =>
      refine pairwise_cons.mpr ⟨fun e' he' => ?_, ih hrest⟩
      obtain ⟨v, hv⟩ := mem_filterMap f he'
      exact hlt _ hv

theorem get?_filterMap (h : Ascending m) (k) : get? (filterMap f m) k = (get? m k).bind (f k) := by
  induction m with
  | nil => rfl
  | cons e rest ih =>
    obtain ⟨k', v⟩ := e
    obtain ⟨hlt, hrest⟩ := pairwise_cons.mp h
    rw [filterMap_cons, get?]
    by_cases hk : k' = k
    · subst hk
      rw [if_pos rfl, Option.bind_some]
      cases hf : f k' v with
      | some w => simp [get?]
      | none =>
        refine get?_eq_none_of_lt fun e he => ?_
        obtain ⟨v', hv'⟩ := mem_filterMap f he
        exact hlt _ hv'
    · rw [if_neg hk, ← ih hrest]
      cases f k' v with
      | some w => simp [get?, hk]
      | none => rfl

end

def indexed (i : Nat) : List α → List (Nat × α)
  | [] => []
  | v :: vs => (i, v) :: indexed (i + 1) vs

theorem le_of_mem_indexed {vs i} {e : Nat × α} (h : e ∈ indexed i vs) : i ≤ e.1 := by
  induction vs generalizing i with
  | nil => cases h
  | cons v vs ih =>
    rcases mem_cons.mp h with rfl | h
    · exact Nat.le_refl i
    · exact Nat.le_of_succ_le (ih h)

theorem mem_of_mem_indexed {vs i} {e : Nat × α} (h : e ∈ indexed i vs) : e.2 ∈ vs := by
  induction vs generalizing i with
  | nil => cases h
  | cons v vs ih =>
    rcases mem_cons.mp h with rfl | h
    · exact .head _
    · exact .tail _ (ih h)

theorem ascending_indexed (vs : List α) (i) : Ascending (indexed i vs) := by
  induction vs generalizing i with
  | nil => exact .nil
  | cons v vs ih =>
    exact pairwise_cons.mpr ⟨fun _ he => le_of_mem_indexed he, ih (i + 1)⟩

theorem get?_indexed (vs : List α) (i d) : get? (indexed i vs) (i + d) = vs[d]? := by
  induction vs generalizing i d with
  | nil => rfl
  | cons v vs ih =>
    cases d with
    | zero => simp [indexed, get?]
    | succ d =>
      rw [indexed, get?, if_neg (by omega), show i + (d + 1) = i + 1 + d by omega, ih]
      rfl

end OrdMap

namespace OrdSet

open List

variable {α : Type*} [LinearOrder α]

/-- Add a member. -/
def insert : List α → α → List α
  | [], a => [a]
  | b :: rest, a =>
    if a < b then a :: b :: rest
    else if a = b then b :: rest
    else b :: insert rest a

/-- Add every member of `ys`. -/
def union (xs ys : List α) : List α := ys.foldl insert xs

/-- The members of `xs` that are not in `ys`. -/
def difference (xs ys : List α) : List α := xs.filter fun x => decide (x ∉ ys)

def ofList (ys : List α) : List α := union [] ys

variable {xs : List α}

theorem mem_insert {a b} : b ∈ insert xs a ↔ b = a ∨ b ∈ xs := by
  induction xs with
  | nil => simp [insert]
  | cons x xs ih =>
    simp only [insert]
    split
    · simp
    split
    · rename_i hax
      simp [hax]
    · simp only [mem_cons]
      tauto

theorem mem_union {ys b} : b ∈ union xs ys ↔ b ∈ xs ∨ b ∈ ys := by
  induction ys generalizing xs with
  | nil => simp [union]
  | cons y ys ih =>
    change b ∈ union (insert xs y) ys ↔ _
    rw [ih, mem_insert, mem_cons]
    tauto

theorem mem_difference {ys b} : b ∈ difference xs ys ↔ b ∈ xs ∧ b ∉ ys := by
  simp [difference]

theorem insert_of_forall_lt {a} (h : ∀ x ∈ xs, x < a) : insert xs a = xs ++ [a] := by
  induction xs with
  | nil => rfl
  | cons x xs ih =>
    have hx : x < a := h x (by simp)
    rw [insert, if_neg (not_lt_of_gt hx), if_neg (ne_of_gt hx),
      ih fun y hy => h y (.tail _ hy), cons_append]

theorem union_of_ascending {ys} (h : (xs ++ ys).Pairwise (· < ·)) : union xs ys = xs ++ ys := by
  induction ys generalizing xs with
  | nil => simp [union]
  | cons y ys ih =>
    have hlt : ∀ x ∈ xs, x < y := fun x hx =>
      (pairwise_append.mp h).2.2 x hx y (by simp)
    rw [append_cons] at h
    rw [union, foldl_cons, insert_of_forall_lt hlt]
    exact (ih h).trans (append_cons ..).symm

theorem ofList_of_ascending {ys : List α} (h : ys.Pairwise (· < ·)) : ofList ys = ys :=
  union_of_ascending h

end OrdSet
