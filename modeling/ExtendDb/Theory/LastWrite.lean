import Mathlib.Data.List.Infix

/-!
# Rows that keep the write with the largest stamp

Stamped writes to the rows of a table arrive in some order.  A row keeps the write with the larger
stamp, and of two writes with one stamp a deletion.
-/

namespace LastWrite

open List

variable {κ ν : Type} [DecidableEq κ]

/-- A write of a row, or its deletion. -/
structure Stamped (κ ν : Type) where
  key : κ
  stamp : Int
  value : Option ν
deriving DecidableEq

def Stamped.beats (w old : Stamped κ ν) : Bool :=
  old.stamp < w.stamp || (old.stamp = w.stamp && w.value.isNone)

def arrive (table : κ → Option (Stamped κ ν)) (w : Stamped κ ν) : κ → Option (Stamped κ ν) :=
  Function.update table w.key <| match table w.key with
    | none => some w
    | some old => if w.beats old then some w else some old

def rowAfter (ws : List (Stamped κ ν)) (k : κ) : Option ν :=
  (ws.foldl arrive (fun _ => none) k).bind Stamped.value

/-- What a row keeps of the writes that have arrived. -/
def Kept (ws : List (Stamped κ ν)) (k : κ) : Option (Stamped κ ν) → Prop
  | none => ∀ w ∈ ws, w.key ≠ k
  | some c => c ∈ ws ∧ c.key = k ∧ ∀ w ∈ ws, w.key = k → w.stamp ≤ c.stamp

variable {ws : List (Stamped κ ν)}

theorem Kept.arrive {table} (h : ∀ k, Kept ws k (table k)) (w) (k) :
    Kept (ws ++ [w]) k (arrive table w k) := by
  by_cases hk : k = w.key
  · subst hk
    have hold := h w.key
    rw [LastWrite.arrive, Function.update_self]
    cases hcell : table w.key with
    | none =>
      rw [hcell] at hold
      refine ⟨by simp, rfl, fun w' hw' hkey => ?_⟩
      rcases mem_append.mp hw' with hw' | hw'
      · exact absurd hkey (hold w' hw')
      · exact Int.le_of_eq (congrArg Stamped.stamp (mem_singleton.mp hw'))
    | some old =>
      -- the arriving write has no smaller stamp, or leaves the kept one in place
      rw [hcell] at hold
      obtain ⟨hmem, hkey, hmax⟩ := hold
      by_cases hbeats : w.beats old = true
      · simp only [hbeats]
        have hle : old.stamp ≤ w.stamp := by
          simp [Stamped.beats] at hbeats
          omega
        refine ⟨by simp, rfl, fun w' hw' hkey' => ?_⟩
        rcases mem_append.mp hw' with hw' | hw'
        · exact Int.le_trans (hmax w' hw' hkey') hle
        · exact Int.le_of_eq (congrArg Stamped.stamp (mem_singleton.mp hw'))
      · simp only [hbeats]
        have hle : w.stamp ≤ old.stamp := by
          simp [Stamped.beats] at hbeats
          exact hbeats.1
        refine ⟨mem_append_left _ hmem, hkey, fun w' hw' hkey' => ?_⟩
        rcases mem_append.mp hw' with hw' | hw'
        · exact hmax w' hw' hkey'
        · rw [mem_singleton.mp hw']
          exact hle
  · rw [LastWrite.arrive, Function.update_of_ne hk]
    have hold := h k
    cases hcell : table k with
    | none =>
      rw [hcell] at hold
      intro w' hw'
      rcases mem_append.mp hw' with hw' | hw'
      · exact hold w' hw'
      · rw [mem_singleton.mp hw']
        exact .symm hk
    | some old =>
      rw [hcell] at hold
      refine ⟨mem_append_left _ hold.1, hold.2.1, fun w' hw' hkey' => ?_⟩
      rcases mem_append.mp hw' with hw' | hw'
      · exact hold.2.2 w' hw' hkey'
      · rw [mem_singleton.mp hw'] at hkey'
        exact absurd hkey'.symm hk

theorem kept_foldl (ws : List (Stamped κ ν)) (k) :
    Kept ws k (ws.foldl arrive (fun _ => none) k) := by
  induction ws using reverseRecOn generalizing k with
  | nil => exact fun w hw => absurd hw not_mem_nil
  | append_singleton ws w ih =>
    rw [foldl_append]
    exact .arrive ih w k

/-- One write of the row has a larger stamp than every other one, or there is none. -/
def Settled (ws : List (Stamped κ ν)) (k : κ) (value : Option ν) : Prop :=
  (value = none ∧ ∀ w ∈ ws, w.key ≠ k) ∨
    ∃ w ∈ ws, w.key = k ∧ w.value = value ∧ ∀ w' ∈ ws, w'.key = k → w' = w ∨ w'.stamp < w.stamp

theorem Settled.rowAfter_eq {arrived k value} (h : Settled ws k value) (hperm : arrived.Perm ws) :
    rowAfter arrived k = value := by
  have hkept := kept_foldl arrived k
  rw [rowAfter]
  rcases h with ⟨rfl, hnone⟩ | ⟨w, hw, hkey, hvalue, htop⟩
  · cases hcell : arrived.foldl arrive (fun _ => none) k with
    | none => rfl
    | some c =>
      rw [hcell] at hkept
      exact absurd hkept.2.1 (hnone c (hperm.mem_iff.mp hkept.1))
  cases hcell : arrived.foldl arrive (fun _ => none) k with
  | none =>
    rw [hcell] at hkept
    exact absurd hkey (hkept w (hperm.mem_iff.mpr hw))
  | some c =>
    rw [hcell] at hkept
    obtain ⟨hmem, hc, hmax⟩ := hkept
    rcases htop c (hperm.mem_iff.mp hmem) hc with heq | hlt
    · rw [heq]
      exact hvalue
    · exact absurd (hmax w (hperm.mem_iff.mpr hw) hkey) (by omega)

/-! ### A row that moves -/

/-- The writes that take a row from one key and content to another: nothing is deleted where the
new content goes. -/
def moveRow (old new : Option (κ × ν)) (stamp : Int) : List (Stamped κ ν) :=
  match old, new with
  | none, none => []
  | some (k, _), none => [⟨k, stamp, none⟩]
  | none, some (k, v) => [⟨k, stamp, some v⟩]
  | some (k, _), some (k', v) =>
    if k = k' then [⟨k', stamp, some v⟩] else [⟨k, stamp, none⟩, ⟨k', stamp, some v⟩]

/-- The content under a key of a table that holds only this row. -/
def rowAt (row : Option (κ × ν)) (k : κ) : Option ν :=
  match row with
  | none => none
  | some (k', v) => if k' = k then some v else none

/-- Under each key a move writes once, what the new row has there, or not at all, and then neither
row is there. -/
theorem moveRow_spec (old new : Option (κ × ν)) (stamp k) :
    (⟨k, stamp, rowAt new k⟩ ∈ moveRow old new stamp ∧
      ∀ w ∈ moveRow old new stamp, w.key = k → w = ⟨k, stamp, rowAt new k⟩) ∨
    ((∀ w ∈ moveRow old new stamp, w.key ≠ k) ∧ rowAt new k = none ∧ rowAt old k = none) := by
  rcases old with - | ⟨ko, vo⟩ <;> rcases new with - | ⟨kn, vn⟩
  · exact .inr ⟨by simp [moveRow], rfl, rfl⟩
  · by_cases hk : kn = k
    · exact .inl (by simp [moveRow, rowAt, hk])
    · exact .inr (by simp [moveRow, rowAt, hk])
  · by_cases hk : ko = k
    · exact .inl (by simp [moveRow, rowAt, hk])
    · exact .inr (by simp [moveRow, rowAt, hk])
  · by_cases hsame : ko = kn
    · subst hsame
      by_cases hk : ko = k
      · exact .inl (by simp [moveRow, rowAt, hk])
      · exact .inr (by simp [moveRow, rowAt, hk])
    · by_cases hn : kn = k
      · exact .inl (by subst hn; simp [moveRow, rowAt, hsame])
      · by_cases ho : ko = k
        · exact .inl (by subst ho; simp [moveRow, rowAt, hsame, hn])
        · exact .inr (by simp [moveRow, rowAt, hsame, hn, ho])

theorem stamp_of_mem_moveRow {old new stamp} {w : Stamped κ ν} (hw : w ∈ moveRow old new stamp) :
    w.stamp = stamp := by
  unfold moveRow at hw
  split at hw <;> try split at hw
  all_goals
    simp only [mem_cons, not_mem_nil, or_false] at hw
  · rw [hw]
  · rw [hw]
  · rw [hw]
  · rcases hw with hw | hw <;> rw [hw]

theorem settled_moveRow {old new stamp} (hbelow : ∀ w ∈ ws, w.stamp < stamp)
    (h : ∀ k, Settled ws k (rowAt old k)) (k : κ) :
    Settled (moveRow old new stamp ++ ws) k (rowAt new k) := by
  rcases moveRow_spec old new stamp k with ⟨hmem, honly⟩ | ⟨hnone, hnew, hold⟩
  · refine .inr ⟨_, mem_append_left _ hmem, rfl, rfl, fun w hw hkey => ?_⟩
    rcases mem_append.mp hw with hw | hw
    · exact .inl (honly w hw hkey)
    · exact .inr (hbelow w hw)
  have hkept := h k
  rw [hold] at hkept
  rw [hnew]
  rcases hkept with ⟨_, hno⟩ | ⟨w, hw, hkey, hvalue, htop⟩
  · refine .inl ⟨rfl, fun w hw => ?_⟩
    rcases mem_append.mp hw with hw | hw
    · exact hnone w hw
    · exact hno w hw
  · refine .inr ⟨w, mem_append_right _ hw, hkey, hvalue, fun w' hw' hkey' => ?_⟩
    rcases mem_append.mp hw' with hw' | hw'
    · exact absurd hkey' (hnone w' hw')
    · exact htop w' hw' hkey'

end LastWrite
