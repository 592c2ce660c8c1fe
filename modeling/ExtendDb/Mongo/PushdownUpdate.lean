import Mathlib.Data.List.Basic

/-!
# Conditional updates pushed down to MongoDB

`update_item_pushdown` reads a document and replaces it in a second round trip.  The version guards
the replacement of a document it found; where it found none, it writes by the key alone.
-/

namespace ExtendDb.Mongo

open List

/-- A document without `_v` has version 0. -/
structure Doc (α : Type) where
  image : α
  version : Nat

/-- The condition and the update of a call, on an image or on a missing one.  Nothing is written
where the update is refused or only removes from a missing image. -/
structure PushdownCall (α : Type) where
  condition : Option α → Bool
  update : Option α → Option α

inductive Progress (α : Type) where
  | idle
  -- no document matched the key and the condition
  | unmatched
  -- the condition held on what was found in an epoch
  | found (doc : Option (Doc α)) (epoch : Nat)
  | finished

/-- A write that was reported, and whether the epoch was still that of its find. -/
structure Success (α : Type) where
  call : PushdownCall α
  read : Option α
  written : α
  replaced : Option α
  undisturbed : Bool

/-- The document of a key and the calls on it.  The epoch counts its creations and deletions. -/
structure Collection (α : Type) where
  doc : Option (Doc α) := none
  epoch : Nat := 0
  progress : Nat → Progress α := fun _ => .idle
  successes : List (Success α) := []

/-- The next find or the replace of a call, or an unconditional write. -/
inductive Event (α : Type) where
  | find (c : Nat)
  | replace (c : Nat)
  | update (image : α)
  | delete

section

variable {α : Type} (calls : Nat → PushdownCall α) (s : Collection α)

namespace Collection

def goOn (c : Nat) (p : Progress α) : Collection α :=
  { s with progress := Function.update s.progress c p }

def find (c : Nat) : Progress α :=
  let holds := (calls c).condition (s.doc.map Doc.image)
  match s.progress c with
  | .idle => if s.doc.isSome && holds then .found s.doc s.epoch else .unmatched
  -- by the key alone: a document that is there now fails the condition
  | .unmatched => if s.doc.isNone && holds then .found s.doc s.epoch else .finished
  | p => p

def put (doc : Doc α) (creates : Bool) : Collection α :=
  { s with doc := some doc, epoch := if creates then s.epoch + 1 else s.epoch }

def replace (call : PushdownCall α) (found : Option (Doc α)) (epoch : Nat) : Collection α :=
  match call.update (found.map Doc.image) with
  | none => s
  | some image =>
    if found.all fun d => s.doc.any (·.version == d.version) then
      { s.put ⟨image, found.elim 0 (·.version + 1)⟩ found.isNone with
        successes := ⟨call, found.map Doc.image, image, s.doc.map Doc.image, epoch == s.epoch⟩ ::
          s.successes }
    -- a call that was raced goes on in the transaction of the session-scoped path
    else s

def step : Event α → Collection α
  | .find c => s.goOn c (s.find calls c)
  | .replace c => match s.progress c with
    | .found found epoch => (s.replace (calls c) found epoch).goOn c .finished
    | _ => s
  | .update image => s.put ⟨image, s.doc.elim 1 (·.version + 1)⟩ s.doc.isNone
  | .delete => { s with doc := none, epoch := if s.doc.isSome then s.epoch + 1 else s.epoch }

end Collection

/-! ## What a call knows -/

/-- The same document, or the same one with a higher version. -/
def Newer (old new : Option (Doc α)) : Prop :=
  new = old ∨ ∃ d e, old = some d ∧ new = some e ∧ d.version < e.version

def Sound (c : Nat) : Progress α → Prop
  | .found doc epoch => (calls c).condition (doc.map Doc.image) = true ∧ epoch ≤ s.epoch ∧
      (epoch = s.epoch → Newer doc s.doc)
  | _ => True

/-- The condition held on the image that was read and the new image was computed from it; while
nothing came in between, it is the image that was replaced. -/
def Success.Atomic (w : Success α) : Prop :=
  w.call.condition w.read = true ∧ w.call.update w.read = some w.written ∧
    (w.undisturbed = true → w.replaced = w.read)

structure Invariant : Prop where
  sound : ∀ c, Sound calls s c (s.progress c)
  atomic : ∀ w ∈ s.successes, w.Atomic

namespace Invariant

variable {calls s} {s' : Collection α} (h : Invariant calls s)
include h

theorem goOn {c p} (hp : Sound calls s c p) : Invariant calls (s.goOn c p) where
  sound d := by
    change Sound calls s d (Function.update s.progress c p d)
    by_cases hd : d = c
    · subst hd
      rwa [Function.update_self]
    · rw [Function.update_of_ne hd]
      exact h.sound d
  atomic := h.atomic

theorem find (c) : Sound calls s c (s.find calls c) := by
  have hfound (held : (calls c).condition (s.doc.map Doc.image) = true) :
      Sound calls s c (.found s.doc s.epoch) := ⟨held, Nat.le_refl _, fun _ => .inl rfl⟩
  have hsound := h.sound c
  simp only [Collection.find]
  split
  · split
    · exact hfound (Bool.and_eq_true_iff.mp ‹_›).2
    · trivial
  · split
    · exact hfound (Bool.and_eq_true_iff.mp ‹_›).2
    · trivial
  · exact hsound

/-- A write ends the epoch or raises the version. -/
theorem advance (hprogress : s'.progress = s.progress) (hdoc : s.epoch < s'.epoch ∨
      s'.epoch = s.epoch ∧ ∃ d e, s.doc = some d ∧ s'.doc = some e ∧ d.version < e.version)
    (hatomic : ∀ w ∈ s'.successes, w ∈ s.successes ∨ w.Atomic) : Invariant calls s' where
  sound c := by
    have hsound := h.sound c
    rw [hprogress]
    cases hp : s.progress c with
    | idle | unmatched | finished => trivial
    | found doc epoch =>
      rw [hp] at hsound
      obtain ⟨hcond, hle, hnewer⟩ := hsound
      refine ⟨hcond, by omega, fun heq => ?_⟩
      rcases hdoc with hlt | ⟨hsame, d, e, hd, he, hlt⟩
      · omega
      · right
        rcases hnewer (heq.trans hsame) with hdoc | ⟨d', e', rfl, he', hlt'⟩
        · exact ⟨d, e, hdoc.symm.trans hd, he, hlt⟩
        · cases hd.symm.trans he'
          exact ⟨d', e, rfl, he, Nat.lt_trans hlt' hlt⟩
  atomic w hw := (hatomic w hw).elim (h.atomic w) id

theorem replace {c found epoch} (hsound : Sound calls s c (.found found epoch)) :
    Invariant calls (s.replace (calls c) found epoch) := by
  obtain ⟨hcond, -, hnewer⟩ := hsound
  unfold Collection.replace
  split
  · exact h
  rename_i image himage
  split
  · rename_i hmatches
    refine h.advance rfl ?_ fun w hw => ?_
    · cases found with
      | none => exact .inl (Nat.lt_succ_self _)
      | some d =>
        obtain ⟨e, he, hversion⟩ := (Option.any_eq_true _ _).mp hmatches
        exact .inr ⟨rfl, e, _, he, rfl, by simp [beq_iff_eq.mp hversion]⟩
    · rcases mem_cons.mp hw with rfl | hw
      · refine .inr ⟨hcond, himage, fun hsame => ?_⟩
        rcases hnewer (beq_iff_eq.mp hsame) with heq | ⟨d, e, rfl, hdoc, hlt⟩
        · exact congrArg (Option.map Doc.image) heq
        · simp [hdoc] at hmatches
          omega
      · exact .inl hw
  · exact h

theorem step (event) : Invariant calls (s.step calls event) := by
  cases event with
  | find c => exact h.goOn (h.find c)
  | replace c =>
    simp only [Collection.step]
    split
    · rename_i found epoch hp
      exact (h.replace (hp ▸ h.sound c)).goOn trivial
    · exact h
  | update image =>
    refine h.advance rfl ?_ fun w => .inl
    simp only [Collection.step, Collection.put]
    cases s.doc with
    | none => exact .inl (Nat.lt_succ_self _)
    | some d => exact .inr ⟨rfl, d, _, rfl, rfl, Nat.lt_succ_self _⟩
  | delete =>
    cases hdoc : s.doc with
    | none =>
      have hsame : s.step calls .delete = s := by
        cases s
        simp_all [Collection.step]
      rwa [hsame]
    | some d => exact h.advance rfl (.inl (by simp [Collection.step, hdoc])) fun w => .inl

end Invariant

/-- A write that replaces nothing leaves a document, so the next one of them needs a deletion. -/
theorem creations_step {calls} {s : Collection α} {event} (hevent : event ≠ .delete)
    (h : s.successes.countP (·.replaced.isNone) ≤ s.doc.isSome.toNat) :
    (s.step calls event).successes.countP (·.replaced.isNone) ≤
      (s.step calls event).doc.isSome.toNat := by
  have hone : s.successes.countP (·.replaced.isNone) ≤ 1 := Nat.le_trans h (Bool.toNat_le _)
  cases event with
  | find c => exact h
  | update image => exact hone
  | delete => exact absurd rfl hevent
  | replace c =>
    simp only [Collection.step]
    split
    · simp only [Collection.replace, Collection.goOn]
      split
      · exact h
      · split
        · cases hdoc : s.doc <;> simp [hdoc, Collection.put] at h ⊢ <;> omega
        · exact h
    · exact h

end

/-- However the finds, replaces and other writes of a key interleave, a call that reports success
wrote from an image on which its condition held; it is the image it replaced, unless the document
was created or deleted between its find and its replace.  So before a deletion at most one call
creates the document from nothing. -/
theorem pushdown_update_atomic {α : Type} (calls : Nat → PushdownCall α) (doc : Option (Doc α))
    (events : List (Event α)) :
    let s := events.foldl (Collection.step calls) { doc }
    s.successes.Forall Success.Atomic ∧ ((∀ event ∈ events, event ≠ .delete) →
      s.successes.countP (fun w => w.undisturbed && w.read.isNone) ≤ 1) := by
  intro s
  have hstart : Invariant calls { doc } := ⟨fun c => trivial, fun w hw => by cases hw⟩
  have hrun := foldlRecOn events (Collection.step calls) hstart fun s h event _ => h.step event
  refine ⟨forall_iff_forall_mem.mpr hrun.atomic, fun hevents => ?_⟩
  have hcreated : s.successes.countP (·.replaced.isNone) ≤ s.doc.isSome.toNat :=
    foldlRecOn (motive := fun s : Collection α => s.successes.countP (·.replaced.isNone) ≤
      s.doc.isSome.toNat) events _ (Nat.zero_le _) fun s h event hmem =>
        creations_step (hevents event hmem) h
  refine Nat.le_trans (countP_mono_left fun w hw hread => ?_)
    (Nat.le_trans hcreated (Bool.toNat_le _))
  obtain ⟨hundisturbed, hread⟩ := Bool.and_eq_true_iff.mp hread
  rwa [(hrun.atomic w hw).2.2 hundisturbed]

/-- A call that may only create. -/
def claimKey (c : Nat) : PushdownCall Nat where
  condition image := image.isNone
  update _ := some c

/-- The second call looks by the key alone after the first one wrote. -/
theorem pushdown_update_atomic_claims :
    let s := [.find 0, .find 1, .find 0, .replace 0, .find 1, .replace 1].foldl
      (Collection.step claimKey) {}
    s.successes.Forall Success.Atomic ∧
      s.successes.map (fun w => (w.written, w.read, w.undisturbed)) = [(0, none, true)] ∧
      s.successes.countP (fun w => w.undisturbed && w.read.isNone) ≤ 1 := by
  obtain ⟨hatomic, hcreated⟩ := pushdown_update_atomic claimKey none
    [.find 0, .find 1, .find 0, .replace 0, .find 1, .replace 1]
  exact ⟨hatomic, by decide, hcreated (by simp)⟩

/-- Both calls succeed, and the second replaces what the first wrote. -/
theorem pushdown_update_lost : (([.find 0, .find 1, .find 0, .find 1, .replace 0, .replace 1].foldl
      (Collection.step claimKey) {}).successes.map fun w => (w.written, w.read, w.replaced)) =
      [(1, none, some 0), (0, none, none)] := by
  decide

end ExtendDb.Mongo
