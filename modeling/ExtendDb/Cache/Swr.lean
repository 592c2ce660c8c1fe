import Mathlib.Data.List.Lex

/-!
# The stale-while-revalidate cache

One key of a cache.  A hard miss goes through the single flight of the underlying map: the first
caller runs the loader, later ones wait for it, and each of them drops the entry when the epoch has
moved since it read it.
-/

namespace ExtendDb

open List Function Nat

structure SwrEntry where
  /-- The identity `Arc::ptr_eq` compares. -/
  identity : Nat
  /-- The invalidations that had begun when the loader read the value. -/
  readAt : Nat
deriving DecidableEq

/-- Where a load of the key is.  Every phase carries the invalidations that had returned when the
load started. -/
inductive LoadCall where
  | idle
  /-- `get` has an entry from its fast path. -/
  | hit (entry : Nat)
  /-- `load_single_flight`: before the expired entry is dropped, before the epoch is read, and before
  the single flight. -/
  | starting (before : List Nat)
  | cleared (before : List Nat)
  | ready (before : List Nat) (epoch : Nat)
  /-- Its own loader runs, and has read the value. -/
  | leading (before : List Nat) (epoch : Nat) (read : Option Nat)
  /-- It waits for the loader of another caller. -/
  | joined (before : List Nat) (epoch : Nat)
  /-- Behind the single flight, before the epoch check and before the entry is dropped. -/
  | loaded (before : List Nat) (epoch : Nat)
  | dropping (before : List Nat)
  /-- A refresh: its loader runs, the epoch check has passed, the identity check has passed. -/
  | refreshing (before : List Nat) (entry epoch : Nat) (read : Option Nat)
  | checked (before : List Nat) (entry read : Nat)
  | identified (before : List Nat) (read : Nat)
  | finished
deriving DecidableEq

def LoadCall.running? : LoadCall → Option (List Nat)
  | .starting before | .cleared before | .ready before _ | .leading before _ _
  | .joined before _ | .loaded before _ | .dropping before | .refreshing before _ _ _
  | .checked before _ _ | .identified before _ => some before
  | .idle | .hit _ | .finished => none

structure SwrCache where
  epoch : Nat
  slot : Option SwrEntry
  /-- The caller whose loader the single flight runs. -/
  leader : Option Nat
  calls : Nat → LoadCall
  nextIdentity : Nat
  /-- The invalidations of the key: how many began, and which bumped the epoch, removed the entry
  and returned. -/
  begun : Nat
  bumped : List Nat
  removed : List Nat
  returned : List Nat

namespace SwrCache

def initial : SwrCache where
  epoch := 0
  slot := none
  leader := none
  calls _ := .idle
  nextIdentity := 0
  begun := 0
  bumped := []
  removed := []
  returned := []

def goOn (s : SwrCache) (c : Nat) (call : LoadCall) : SwrCache :=
  { s with calls := update s.calls c call }

def insert (s : SwrCache) (readAt : Nat) : SwrCache :=
  { s with slot := some ⟨s.nextIdentity, readAt⟩, nextIdentity := s.nextIdentity + 1 }

end SwrCache

open SwrCache in
/-- One step, between two await points or atomic operations. -/
inductive SwrStep : SwrCache → SwrCache → Prop where
  | startLoad {s c} (hcall : s.calls c = .idle) : SwrStep s (s.goOn c (.starting s.returned))
  | clear {s c before} (hcall : s.calls c = .starting before) :
      SwrStep s ({ s with slot := none }.goOn c (.cleared before))
  | readEpoch {s c before} (hcall : s.calls c = .cleared before) :
      SwrStep s (s.goOn c (.ready before s.epoch))
  -- `try_get_with`: the value is there, another loader runs, or the own loader is started
  | found {s c epoch before entry} (hcall : s.calls c = .ready before epoch)
      (hslot : s.slot = some entry) : SwrStep s (s.goOn c (.loaded before epoch))
  | join {s c d epoch before} (hcall : s.calls c = .ready before epoch)
      (hleader : s.leader = some d) : SwrStep s (s.goOn c (.joined before epoch))
  | lead {s c epoch before} (hcall : s.calls c = .ready before epoch) (hslot : s.slot = none)
      (hleader : s.leader = none) :
      SwrStep s ({ s with leader := some c }.goOn c (.leading before epoch none))
  | loaderReads {s c epoch before} (hcall : s.calls c = .leading before epoch none) :
      SwrStep s (s.goOn c (.leading before epoch (some s.begun)))
  | loaderEnds {s c epoch r before} (hcall : s.calls c = .leading before epoch (some r)) :
      SwrStep s ({ s.insert r with leader := none }.goOn c (.loaded before epoch))
  | loaderFails {s c epoch before read} (hcall : s.calls c = .leading before epoch read) :
      SwrStep s ({ s with leader := none }.goOn c .finished)
  | wake {s c epoch before} (hcall : s.calls c = .joined before epoch) :
      SwrStep s (s.goOn c (.loaded before epoch))
  | joinFails {s c epoch before} (hcall : s.calls c = .joined before epoch) :
      SwrStep s (s.goOn c .finished)
  | keep {s c epoch before} (hcall : s.calls c = .loaded before epoch) (hepoch : s.epoch = epoch) :
      SwrStep s (s.goOn c .finished)
  | epochMoved {s c epoch before} (hcall : s.calls c = .loaded before epoch)
      (hepoch : s.epoch ≠ epoch) : SwrStep s (s.goOn c (.dropping before))
  | drop {s c before} (hcall : s.calls c = .dropping before) :
      SwrStep s ({ s with slot := none }.goOn c .finished)
  -- the fast path of `get`: a fresh entry is returned, a stale one spawns a refresh as well
  | hits {s c entry} (hcall : s.calls c = .idle) (hslot : s.slot = some entry) :
      SwrStep s (s.goOn c (.hit entry.identity))
  | hitReturns {s c entry} (hcall : s.calls c = .hit entry) : SwrStep s (s.goOn c .finished)
  | spawnRefresh {s c entry} (hcall : s.calls c = .hit entry) :
      SwrStep s (s.goOn c (.refreshing s.returned entry s.epoch none))
  | refreshReads {s c entry epoch before} (hcall : s.calls c = .refreshing before entry epoch none) :
      SwrStep s (s.goOn c (.refreshing before entry epoch (some s.begun)))
  | refreshChecks {s c entry epoch r before}
      (hcall : s.calls c = .refreshing before entry epoch (some r)) (hepoch : s.epoch = epoch) :
      SwrStep s (s.goOn c (.checked before entry r))
  | refreshIdentifies {s c entry r before current} (hcall : s.calls c = .checked before entry r)
      (hslot : s.slot = some current) (hsame : current.identity = entry) :
      SwrStep s (s.goOn c (.identified before r))
  | refreshInserts {s c r before} (hcall : s.calls c = .identified before r) :
      SwrStep s ((s.insert r).goOn c .finished)
  -- a failed load, a moved epoch or another entry ends a refresh
  | refreshEnds {s c entry epoch r before read}
      (hcall : s.calls c = .refreshing before entry epoch read ∨
        s.calls c = .checked before entry r) : SwrStep s (s.goOn c .finished)
  -- `invalidate`, `invalidate_if` and `invalidate_all` that cover the key
  | invalidateBegins {s} : SwrStep s { s with begun := s.begun + 1 }
  | invalidateBumps {s n} (hbegun : n ≤ s.begun) :
      SwrStep s { s with epoch := s.epoch + 1, bumped := n :: s.bumped }
  | invalidateRemoves {s n} (hbumped : n ∈ s.bumped) :
      SwrStep s { s with slot := none, removed := n :: s.removed }
  | invalidateReturns {s n} (hremoved : n ∈ s.removed) :
      SwrStep s { s with returned := n :: s.returned }
  | invalidateOther {s} : SwrStep s { s with epoch := s.epoch + 1 }
  -- expiry or eviction in the underlying map
  | evict {s} : SwrStep s { s with slot := none }

/-- The states of all interleavings. -/
def SwrReachable (s : SwrCache) : Prop := Relation.ReflTransGen SwrStep SwrCache.initial s

/-- Once an invalidation has returned and every load that ran then has finished, the cache holds no
value that was read before it began. -/
def SwrCache.InvalidationWins (s : SwrCache) : Prop :=
  ∀ n ∈ s.returned, (∀ c before, (s.calls c).running? = some before → n ∈ before) →
    ∀ entry, s.slot = some entry → n ≤ entry.readAt

def LoadCall.PastEpochCheck : LoadCall → Prop
  | .checked _ _ _ | .identified _ _ => True
  | _ => False

def BumpsOutsideWrites (s s' : SwrCache) : Prop :=
  s'.bumped ≠ s.bumped → ∀ c, ¬ (s.calls c).PastEpochCheck

/-! ### The invariant -/

namespace SwrCache

def CallMarks (s : SwrCache) : LoadCall → Prop
  | .starting before | .cleared before => ∀ n ∈ before, n ≤ s.begun
  | .ready before epoch | .leading before epoch none | .refreshing before _ epoch none =>
    (∀ n ∈ before, n ≤ s.begun) ∧ epoch ≤ s.epoch
  | .leading before epoch (some r) | .refreshing before _ epoch (some r) =>
    (∀ n ∈ before, n ≤ r) ∧ epoch ≤ s.epoch ∧ ∀ n ∈ s.bumped, r < n → epoch < s.epoch
  | .checked _ _ r | .identified _ r => ∀ n ∈ s.bumped, n ≤ r
  | _ => True

/-- A load that ran when the invalidation returned and is going to drop the entry. -/
def Drops (s : SwrCache) (n : Nat) (call : LoadCall) : Prop :=
  ∃ before, n ∉ before ∧
    ((∃ epoch, call = .loaded before epoch ∧ epoch < s.epoch) ∨ call = .dropping before)

def SlotMarks (s : SwrCache) : Prop :=
  ∀ entry, s.slot = some entry → ∀ n ∈ s.removed, entry.readAt < n → ∃ c, s.Drops n (s.calls c)

end SwrCache

structure SwrInvariant (s : SwrCache) : Prop where
  bumped : ∀ n ∈ s.bumped, n ≤ s.begun
  removed : s.removed ⊆ s.bumped
  returned : s.returned ⊆ s.removed
  calls : ∀ c, s.CallMarks (s.calls c)
  slot : s.SlotMarks

theorem swrInvariant_initial : SwrInvariant SwrCache.initial := by
  constructor <;> simp [SwrCache.initial, SwrCache.CallMarks, SwrCache.SlotMarks]

namespace SwrInvariant

variable {s : SwrCache}

section

variable (h : SwrInvariant s)
include h

theorem returned_le : ∀ n ∈ s.returned, n ≤ s.begun :=
  fun n hn => h.bumped n (h.removed (h.returned hn))

theorem calls_goOn {c call} (hmarks : s.CallMarks call) (d) :
    s.CallMarks (update s.calls c call d) := by
  by_cases heq : d = c
  · rw [heq, update_self]
    exact hmarks
  · rw [update_of_ne heq]
    exact h.calls d

theorem goOn {c call} (hmarks : s.CallMarks call)
    (hdrops : ∀ n, s.Drops n (s.calls c) → s.Drops n call) : SwrInvariant (s.goOn c call) where
  bumped := h.bumped
  removed := h.removed
  returned := h.returned
  calls := h.calls_goOn hmarks
  slot entry hentry n hn hread := by
    obtain ⟨d, hd⟩ := h.slot entry hentry n hn hread
    by_cases heq : d = c
    · refine ⟨c, ?_⟩
      change s.Drops n (update s.calls c call c)
      rw [update_self]
      exact hdrops n (heq ▸ hd)
    · refine ⟨d, ?_⟩
      change s.Drops n (update s.calls c call d)
      rw [update_of_ne heq]
      exact hd

theorem goOn_other {c call old} (hcall : s.calls c = old) (hmarks : s.CallMarks call)
    (hloaded : ∀ before epoch, old ≠ .loaded before epoch)
    (hdropping : ∀ before, old ≠ .dropping before) : SwrInvariant (s.goOn c call) := by
  refine h.goOn hmarks fun n hdrops => ?_
  obtain ⟨before, _, ⟨epoch, heq, _⟩ | heq⟩ := hdrops
  · exact absurd (hcall.symm.trans heq) (hloaded before epoch)
  · exact absurd (hcall.symm.trans heq) (hdropping before)

theorem emptySlot : SwrInvariant { s with slot := none } where
  bumped := h.bumped
  removed := h.removed
  returned := h.returned
  calls := h.calls
  slot entry hentry := by cases hentry

theorem setLeader (leader) : SwrInvariant { s with leader := leader } :=
  ⟨h.bumped, h.removed, h.returned, h.calls, h.slot⟩

end

/-- The marks of a call stand when the epoch moves on, past the epoch check only if no invalidation of
the key moved it. -/
theorem callMarks_bump {call} (bumped) (hmarks : s.CallMarks call)
    (hpast : call.PastEpochCheck → bumped = s.bumped) :
    SwrCache.CallMarks { s with epoch := s.epoch + 1, bumped := bumped } call := by
  cases call with
  | ready before epoch => exact ⟨hmarks.1, le_succ_of_le hmarks.2⟩
  | leading before epoch read | refreshing before entry epoch read =>
    cases read with
    | none => exact ⟨hmarks.1, le_succ_of_le hmarks.2⟩
    | some r =>
      exact ⟨hmarks.1, le_succ_of_le hmarks.2.1, fun n _ _ => lt_succ_of_le hmarks.2.1⟩
  | checked before entry r | identified before r => exact fun n hn => hmarks n (hpast trivial ▸ hn)
  | _ => exact hmarks

theorem bumpEpoch (h : SwrInvariant s) : SwrInvariant { s with epoch := s.epoch + 1 } where
  bumped := h.bumped
  removed := h.removed
  returned := h.returned
  calls c := callMarks_bump s.bumped (h.calls c) fun _ => rfl
  slot entry hentry n hn hread := by
    obtain ⟨d, before, hnot, hd⟩ := h.slot entry hentry n hn hread
    refine ⟨d, before, hnot, ?_⟩
    rcases hd with ⟨epoch, heq, hlt⟩ | heq
    · exact .inl ⟨epoch, heq, lt_succ_of_lt hlt⟩
    · exact .inr heq

end SwrInvariant

theorem SwrStep.invariant {s s'} (hstep : SwrStep s s') (hcondition : BumpsOutsideWrites s s')
    (h : SwrInvariant s) : SwrInvariant s' := by
  cases hstep with
  | startLoad hcall => exact h.goOn_other hcall h.returned_le (by simp) (by simp)
  | @clear c before hcall =>
    have hmarks := h.calls c
    rw [hcall] at hmarks
    exact h.emptySlot.goOn_other hcall hmarks (by simp) (by simp)
  | @readEpoch c before hcall =>
    have hmarks := h.calls c
    rw [hcall] at hmarks
    exact h.goOn_other hcall ⟨hmarks, le_refl _⟩ (by simp) (by simp)
  | found hcall | join hcall | wake hcall | joinFails hcall | hits hcall | hitReturns hcall =>
    exact h.goOn_other hcall trivial (by simp) (by simp)
  | @lead c epoch before hcall =>
    have hmarks := h.calls c
    rw [hcall] at hmarks
    exact (h.setLeader _).goOn_other hcall hmarks (by simp) (by simp)
  | @loaderReads c epoch before hcall | @refreshReads c entry epoch before hcall =>
    have hmarks := h.calls c
    rw [hcall] at hmarks
    refine h.goOn_other hcall ⟨hmarks.1, hmarks.2, fun n hn hlt => ?_⟩ (by simp) (by simp)
    exact absurd (h.bumped n hn) (by omega)
  | @loaderEnds c epoch r before hcall =>
    have hmarks := h.calls c
    rw [hcall] at hmarks
    obtain ⟨hbefore, _, hmoved⟩ := hmarks
    have hcalls := @SwrInvariant.calls_goOn s h c (.loaded before epoch) trivial
    refine ⟨h.bumped, h.removed, h.returned, hcalls, fun entry hentry n hn hread => ?_⟩
    -- the loader's own caller has the older epoch
    cases hentry
    refine ⟨c, before, fun hmem => absurd (hbefore n hmem) (Nat.not_le_of_lt hread), .inl ?_⟩
    refine ⟨epoch, ?_, hmoved n (h.removed hn) hread⟩
    exact update_self ..
  | loaderFails hcall =>
    exact (h.setLeader none).goOn_other hcall trivial (by simp) (by simp)
  | @keep c epoch before hcall hepoch =>
    refine h.goOn trivial fun n hdrops => ?_
    obtain ⟨b, _, ⟨e, heq, hlt⟩ | heq⟩ := hdrops
    · cases hcall.symm.trans heq
      exact absurd hepoch (ne_of_gt hlt)
    · cases hcall.symm.trans heq
  | @epochMoved c epoch before hcall hepoch =>
    refine h.goOn trivial fun n hdrops => ?_
    obtain ⟨b, hnot, ⟨e, heq, _⟩ | heq⟩ := hdrops
    · cases hcall.symm.trans heq
      exact ⟨before, hnot, .inr rfl⟩
    · cases hcall.symm.trans heq
  | @drop c before hcall =>
    have hcalls := @SwrInvariant.calls_goOn s h c .finished trivial
    exact ⟨h.bumped, h.removed, h.returned, hcalls, fun entry hentry => by cases hentry⟩
  | spawnRefresh hcall =>
    exact h.goOn_other hcall ⟨h.returned_le, le_refl _⟩ (by simp) (by simp)
  | @refreshChecks c entry epoch r before hcall hepoch =>
    have hmarks := h.calls c
    rw [hcall] at hmarks
    refine h.goOn_other hcall (fun n hn => ?_) (by simp) (by simp)
    by_contra hlt
    exact absurd (hmarks.2.2 n hn (by omega)) (by omega)
  | @refreshIdentifies c entry r before current hcall =>
    have hmarks := h.calls c
    rw [hcall] at hmarks
    exact h.goOn_other hcall hmarks (by simp) (by simp)
  -- the guard: no bump since the check, so the value is as new as every invalidation
  | @refreshInserts c r before hcall =>
    have hmarks := h.calls c
    rw [hcall] at hmarks
    have hinserted : SwrInvariant (s.insert r) := by
      refine ⟨h.bumped, h.removed, h.returned, h.calls, fun entry hentry n hn hread => ?_⟩
      cases hentry
      exact absurd (hmarks n (h.removed hn)) (Nat.not_le_of_lt hread)
    exact hinserted.goOn_other hcall trivial (by simp) (by simp)
  | @refreshEnds c entry epoch r before read hcall =>
    rcases hcall with hcall | hcall
    all_goals exact h.goOn_other hcall trivial (by simp) (by simp)
  | invalidateBegins =>
    refine ⟨fun n hn => le_succ_of_le (h.bumped n hn), h.removed, h.returned, fun c => ?_, h.slot⟩
    have hmarks := h.calls c
    revert hmarks
    cases s.calls c with
    | starting before | cleared before => exact fun hm n hn => le_succ_of_le (hm n hn)
    | ready before epoch => exact fun hm => ⟨fun n hn => le_succ_of_le (hm.1 n hn), hm.2⟩
    | leading before epoch read | refreshing before entry epoch read =>
      cases read with
      | none => exact fun hm => ⟨fun n hn => le_succ_of_le (hm.1 n hn), hm.2⟩
      | some r => exact id
    | _ => exact id
  | @invalidateBumps n hbegun =>
    have hbumped := h.bumpEpoch
    refine ⟨fun m hm => ?_, fun m hm => mem_cons_of_mem _ (h.removed hm), h.returned,
      fun c => ?_, hbumped.slot⟩
    · rcases mem_cons.mp hm with rfl | hm
      · exact hbegun
      · exact h.bumped m hm
    · have houtside := hcondition (by simp) c
      exact SwrInvariant.callMarks_bump _ (h.calls c) fun hpast => absurd hpast houtside
  | @invalidateRemoves n hbumped =>
    refine ⟨h.bumped, fun m hm => ?_, fun m hm => mem_cons_of_mem _ (h.returned hm), h.calls,
      fun entry hentry => by cases hentry⟩
    rcases mem_cons.mp hm with rfl | hm
    · exact hbumped
    · exact h.removed hm
  | @invalidateReturns n hremoved =>
    refine ⟨h.bumped, h.removed, fun m hm => ?_, h.calls, h.slot⟩
    rcases mem_cons.mp hm with rfl | hm
    · exact hremoved
    · exact h.returned hm
  | invalidateOther => exact h.bumpEpoch
  | evict => exact h.emptySlot

theorem SwrInvariant.invalidationWins {s} (h : SwrInvariant s) : s.InvalidationWins := by
  intro n hn hfinished entry hentry
  by_contra hread
  obtain ⟨c, before, hnot, hdrops⟩ :=
    h.slot entry hentry n (h.returned hn) (Nat.lt_of_not_le hread)
  rcases hdrops with ⟨epoch, heq, _⟩ | heq
  all_goals exact hnot (hfinished c before (by rw [heq]; rfl))

/-- The states of the interleavings in which no invalidation of the key bumps the epoch while a
refresh is between its epoch check and its insert. -/
abbrev GuardedRun : SwrCache → SwrCache → Prop :=
  Relation.ReflTransGen fun s s' => SwrStep s s' ∧ BumpsOutsideWrites s s'

def SwrGuardedReachable (s : SwrCache) : Prop := GuardedRun SwrCache.initial s

theorem invalidation_wins {s : SwrCache} (h : SwrGuardedReachable s) : s.InvalidationWins := by
  have hinv : SwrInvariant s := by
    induction h with
    | refl => exact swrInvariant_initial
    | tail _ hstep ih => exact hstep.1.invariant hstep.2 ih
  exact hinv.invalidationWins

/-! ### Runs -/

def firstLoad : SwrCache where
  epoch := 0
  slot := some ⟨0, 0⟩
  leader := none
  calls := update (fun _ => .idle) 0 .finished
  nextIdentity := 1
  begun := 0
  bumped := []
  removed := []
  returned := []

theorem SwrStep.guarded {s s'} (hstep : SwrStep s s') (hbumped : s'.bumped = s.bumped) :
    SwrStep s s' ∧ BumpsOutsideWrites s s' := ⟨hstep, fun hne => absurd hbumped hne⟩

open SwrStep

/-- A load from its start to the read of its loader. -/
theorem load_reads {s : SwrCache} {c} (hidle : s.calls c = .idle) (hleader : s.leader = none) :
    GuardedRun s ({ s with slot := none, leader := some c }.goOn c
      (.leading s.returned s.epoch (some s.begun))) := by
  have hself (t : SwrCache) (call) : (t.goOn c call).calls c = call := update_self ..
  have hrun : GuardedRun s _ :=
    .head ((startLoad hidle).guarded rfl) <| .head ((clear (hself _ _)).guarded rfl) <|
    .head ((readEpoch (hself _ _)).guarded rfl) <|
    .head ((lead (hself _ _) rfl (by exact hleader)).guarded rfl) <|
    .single ((loaderReads (hself _ _)).guarded rfl)
  simpa only [SwrCache.goOn, update_idem] using hrun

/-- The end of a load, with no invalidation since it read the epoch. -/
theorem load_keeps {s : SwrCache} {c before r} (hcall : s.calls c = .leading before s.epoch (some r)) :
    GuardedRun s ({ s.insert r with leader := none }.goOn c .finished) := by
  have hrun : GuardedRun s _ := .head ((loaderEnds hcall).guarded rfl) <|
    .single ((keep (update_self ..) rfl).guarded rfl)
  simpa only [SwrCache.goOn, update_idem] using hrun

/-- The end of a load behind an invalidation. -/
theorem load_drops {s : SwrCache} {c before epoch r}
    (hcall : s.calls c = .leading before epoch (some r)) (hepoch : s.epoch ≠ epoch) :
    GuardedRun s ({ s.insert r with leader := none, slot := none }.goOn c .finished) := by
  have hrun : GuardedRun s _ := .head ((loaderEnds hcall).guarded rfl) <|
    .head ((epochMoved (update_self ..) (by exact hepoch)).guarded rfl) <|
    .single ((drop (update_self ..)).guarded rfl)
  simpa only [SwrCache.goOn, update_idem] using hrun

theorem firstLoad_reachable : SwrGuardedReachable firstLoad := by
  have hrun := (load_reads (c := 0) (s := .initial) rfl rfl).trans (load_keeps (update_self ..))
  simp only [SwrCache.goOn, SwrCache.insert, update_idem] at hrun
  exact hrun

/-- An invalidation that runs between a loader's read and its insert: the load drops what it has
inserted, and the entry of a load that starts later stays. -/
theorem invalidation_wins_over_load :
    ∃ s, SwrGuardedReachable s ∧ 1 ∈ s.returned ∧ s.slot = some ⟨2, 1⟩ ∧ s.InvalidationWins := by
  have hloading := firstLoad_reachable.trans (load_reads (c := 1) rfl rfl)
  have hidle (c) : ¬ (update firstLoad.calls 1 (.leading [] 0 (some 0)) c).PastEpochCheck := by
    by_cases h1 : c = 1
    · rw [h1, update_self]
      exact id
    by_cases h0 : c = 0
    · rw [update_of_ne h1, h0]
      exact id
    · rw [update_of_ne h1, show firstLoad.calls c = .idle by simp [firstLoad, h0]]
      exact id
  have hreturned : SwrGuardedReachable _ := hloading.trans <|
    .head (invalidateBegins.guarded rfl) <|
    .head ⟨.invalidateBumps (le_refl 1), fun _ => hidle⟩ <|
    .head ((invalidateRemoves (mem_singleton_self 1)).guarded rfl) <|
    .single ((invalidateReturns (mem_singleton_self 1)).guarded rfl)
  have hrun := ((hreturned.trans (load_drops (c := 1) rfl (by decide))).trans
    (load_reads (c := 2) rfl rfl)).trans (load_keeps (update_self ..))
  exact ⟨_, hrun, mem_singleton_self 1, rfl, invalidation_wins hrun⟩

/-- An invalidation that begins after the epoch check of a refresh and returns before its insert is
undone. -/
theorem invalidation_undone_by_refresh :
    ∃ s, SwrReachable s ∧ 1 ∈ s.returned ∧ (∀ c, (s.calls c).running? = none) ∧
      s.slot = some ⟨1, 0⟩ ∧ ¬ s.InvalidationWins := by
  have hfirst : SwrReachable firstLoad :=
    .mono (fun _ _ hstep => hstep.1) _ _ firstLoad_reachable
  obtain ⟨s, hrun, hreturned, hslot, hcalls⟩ : ∃ s, SwrReachable s ∧ s.returned = [1] ∧
      s.slot = some ⟨1, 0⟩ ∧ s.calls = update firstLoad.calls 1 .finished := by
    refine ⟨_, hfirst.trans <| .head (.hits (c := 1) rfl rfl) <|
      .head (.spawnRefresh (c := 1) rfl) <|
      .head (.refreshReads (c := 1) rfl) <|
      .head (.refreshChecks (c := 1) rfl rfl) <|
      .head (.refreshIdentifies (c := 1) rfl rfl rfl) <|
      .head .invalidateBegins <|
      .head (.invalidateBumps (le_refl 1)) <|
      .head (.invalidateRemoves (mem_singleton_self 1)) <|
      .head (.invalidateReturns (mem_singleton_self 1)) <|
      .single (.refreshInserts (c := 1) rfl), rfl, rfl, ?_⟩
    simp [SwrCache.goOn, SwrCache.insert]
  have hidle : ∀ c, (s.calls c).running? = none := by
    intro c
    by_cases h1 : c = 1
    · simp [hcalls, h1, LoadCall.running?]
    by_cases h0 : c = 0
    · simp [hcalls, h0, firstLoad, LoadCall.running?]
    · simp [hcalls, firstLoad, LoadCall.running?, h0, h1]
  have hmem : 1 ∈ s.returned := by simp [hreturned]
  refine ⟨s, hrun, hmem, hidle, hslot, fun hwins => ?_⟩
  have hread : 1 ≤ 0 := hwins 1 hmem
    (fun c before hrunning => by rw [hidle c] at hrunning; cases hrunning) ⟨1, 0⟩ hslot
  exact absurd hread (by decide)

end ExtendDb
