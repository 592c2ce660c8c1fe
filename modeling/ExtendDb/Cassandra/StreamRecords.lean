import ExtendDb.Theory.EventRun
import ExtendDb.Theory.NumberedLog
import Mathlib.Algebra.Group.Nat.Defs
import Mathlib.Data.List.Sublists

/-!
# The stream records of single-item writes

A write draws the number of its stream record from its instance's `HybridClock` before the
lightweight transaction that commits the base row, and the record is written by a batch after it.
-/

namespace ExtendDb.Cassandra

open NumberedLog List Function

/-! ## The clock -/

structure HybridClock where
  lastTimestampMs : ℕ
  logicalCounter : ℕ
  nodeId : ℕ
deriving DecidableEq

namespace HybridClock

def number (clock : HybridClock) : ℕ :=
  clock.lastTimestampMs * 10 ^ 10 + clock.logicalCounter * 10 ^ 4 + clock.nodeId

def generateFrom (clock : HybridClock) (nowMs reread : ℕ) : HybridClock :=
  if clock.lastTimestampMs < nowMs then
    { clock with lastTimestampMs := nowMs, logicalCounter := 0 }
  else if 999999 < clock.logicalCounter + 1 then
    { clock with
      lastTimestampMs := max reread (clock.lastTimestampMs + 1), logicalCounter := 0 }
  else { clock with logicalCounter := clock.logicalCounter + 1 }

structure Fits (clock : HybridClock) : Prop where
  counter : clock.logicalCounter ≤ 999999
  node : clock.nodeId < 10 ^ 4

variable {clock : HybridClock}

theorem generateFrom_nodeId (nowMs reread) :
    (clock.generateFrom nowMs reread).nodeId = clock.nodeId := by
  unfold generateFrom
  split
  · rfl
  · split <;> rfl

theorem Fits.generateFrom (h : clock.Fits) (nowMs reread) :
    (clock.generateFrom nowMs reread).Fits := by
  refine ⟨?_, (generateFrom_nodeId nowMs reread).symm ▸ h.node⟩
  unfold HybridClock.generateFrom
  split
  · exact Nat.zero_le _
  split
  · exact Nat.zero_le _
  · simp only
    omega

theorem Fits.number_lt (h : clock.Fits) (nowMs reread) :
    clock.number < (clock.generateFrom nowMs reread).number := by
  have hcounter := h.counter
  unfold HybridClock.generateFrom number
  split
  · simp only
    omega
  split
  all_goals
    simp only
    omega

theorem Fits.number_mod (h : clock.Fits) : clock.number % 10 ^ 4 = clock.nodeId := by
  have hnode := h.node
  unfold number
  omega

end HybridClock

/-! ## Writers and readers of a shard -/

/-- Where a write is.  After a lost race it reads the row again; a batch whose answer was lost may
still be applied. -/
inductive StreamCall where
  | idle
  | read (version : ℕ)
  | drawn (version number : ℕ)
  | committed (number : ℕ)
  | succeeded (number : ℕ)
  | unanswered (number : ℕ)
  | ended
deriving DecidableEq

/-- The number of a write whose record may still come. -/
def StreamCall.ahead : StreamCall → Option ℕ
  | .drawn _ number | .committed number | .unanswered number => some number
  | _ => none

structure ShardRecord where
  call : ℕ
  number : ℕ
deriving DecidableEq

/-- A shard: the clocks of the instances, the writes, the committed writes of each item (their
numbers, newest first), the records and the readers.  `issued` lists the numbers drawn, and `polls`
counts the polls of a reader. -/
structure ShardState (ν : Type) where
  clocks : ν → HybridClock
  calls : ℕ → StreamCall
  commits : ℕ → List ℕ
  log : List ShardRecord
  readers : ℕ → Reader ShardRecord ℕ
  polls : ℕ → ℕ
  issued : List ℕ

structure ShardSetup (ν : Type) where
  item : ℕ → ℕ
  server : ℕ → ν
  node : ν → ℕ
  node_lt : ∀ i, node i < 10 ^ 4
  node_injective : Injective node

variable {ν : Type} [DecidableEq ν]

/-- Nothing written, every reader at TRIM_HORIZON. -/
def ShardState.initial (setup : ShardSetup ν) : ShardState ν where
  clocks := fun i => ⟨0, 0, setup.node i⟩
  calls := fun _ => .idle
  commits := fun _ => []
  log := []
  readers := fun _ => .fresh
  polls := fun _ => 0
  issued := []

inductive ShardEvent where
  /-- `occ_read`. -/
  | reads (c : ℕ)
  /-- `stream_record_statement` draws the number, from two readings of the wall clock. -/
  | draws (c nowMs reread : ℕ)
  /-- The lightweight transaction is applied: the version is the one that was read. -/
  | commits (c : ℕ)
  /-- The lightweight transaction is refused. -/
  | loses (c : ℕ)
  /-- The batch with the record is applied, and the write reports success. -/
  | lands (c : ℕ)
  /-- The batch is answered with an error. -/
  | losesAnswer (c : ℕ)
  /-- The batch is applied after the error. -/
  | landsLate (c : ℕ)
  /-- The write ends on an error, or its process stops. -/
  | ends (c : ℕ)
  /-- `GetRecords` with the iterator of a reader. -/
  | polls (reader limit : ℕ)
deriving DecidableEq

variable {setup : ShardSetup ν}

namespace ShardState

section

variable (s : ShardState ν)

def goOn (c : ℕ) (call : StreamCall) : ShardState ν :=
  { s with calls := update s.calls c call }

def land (c number : ℕ) : ShardState ν :=
  { s with log := ⟨c, number⟩ :: s.log }

def tick (i : ν) (clock : HybridClock) : ShardState ν :=
  { s with clocks := update s.clocks i clock, issued := clock.number :: s.issued }

/-- A write of an item has committed. -/
def push (k number : ℕ) : ShardState ν :=
  { s with commits := update s.commits k (number :: s.commits k) }

def poll (reader limit : ℕ) : ShardState ν :=
  { s with
    readers := update s.readers reader ((s.readers reader).poll ShardRecord.number s.log limit)
    polls := update s.polls reader (s.polls reader + 1) }

end

def step (setup : ShardSetup ν) (s : ShardState ν) : ShardEvent → Option (ShardState ν)
  | .reads c =>
    match s.calls c with
    | .idle => some (s.goOn c (.read (s.commits (setup.item c)).length))
    | _ => none
  | .draws c nowMs reread =>
    match s.calls c with
    | .read version =>
      let clock := (s.clocks (setup.server c)).generateFrom nowMs reread
      some ((s.tick (setup.server c) clock).goOn c (.drawn version clock.number))
    | _ => none
  | .commits c =>
    match s.calls c with
    | .drawn version number =>
      if (s.commits (setup.item c)).length = version then
        some ((s.push (setup.item c) number).goOn c (.committed number))
      else none
    | _ => none
  | .loses c =>
    match s.calls c with
    | .drawn version _ =>
      if (s.commits (setup.item c)).length = version then none else some (s.goOn c .idle)
    | _ => none
  | .lands c =>
    match s.calls c with
    | .committed number => some ((s.land c number).goOn c (.succeeded number))
    | _ => none
  | .losesAnswer c =>
    match s.calls c with
    | .committed number => some (s.goOn c (.unanswered number))
    | _ => none
  | .landsLate c =>
    match s.calls c with
    | .unanswered number => some ((s.land c number).goOn c .ended)
    | _ => none
  | .ends c =>
    match s.calls c with
    | .succeeded _ => none
    | _ => some (s.goOn c .ended)
  | .polls reader limit =>
    if 1 ≤ limit then some (s.poll reader limit) else none

/-- The clocks are in step, so that a number is above the numbers drawn before, and a record is
written when no lower number is on its way. -/
def InStep (setup : ShardSetup ν) (s : ShardState ν) : ShardEvent → Prop
  | .draws c nowMs reread =>
    ∀ n ∈ s.issued, n < ((s.clocks (setup.server c)).generateFrom nowMs reread).number
  | .lands c | .landsLate c => ∀ n, (s.calls c).ahead = some n →
      ∀ c' m, (s.calls c').ahead = some m → n ≤ m
  | _ => True

/-- What holds of a shard in every run. -/
structure Consistent (setup : ShardSetup ν) (s : ShardState ν) : Prop where
  fits : ∀ i, (s.clocks i).Fits ∧ (s.clocks i).nodeId = setup.node i
  issued : ∀ n ∈ s.issued, ∃ i, n % 10 ^ 4 = setup.node i ∧ n ≤ (s.clocks i).number
  ahead : ∀ c n, (s.calls c).ahead = some n → n ∈ s.issued ∧ (∀ x ∈ s.log, x.number ≠ n) ∧
    ∀ c', (s.calls c').ahead = some n → c' = c
  logged : ∀ x ∈ s.log, x.number ∈ s.issued ∧ x.number ∈ s.commits (setup.item x.call)
  distinct : Distinct ShardRecord.number s.log
  committed : ∀ c n, s.calls c = .committed n ∨ s.calls c = .unanswered n →
    n ∈ s.commits (setup.item c)
  succeeded : ∀ c n, s.calls c = .succeeded n → ⟨c, n⟩ ∈ s.log

omit [DecidableEq ν] in
theorem consistent_initial (setup : ShardSetup ν) : Consistent setup (.initial setup) where
  fits i := ⟨⟨Nat.zero_le _, setup.node_lt i⟩, rfl⟩
  issued _ h := nomatch h
  ahead _ _ h := nomatch h
  logged _ h := nomatch h
  distinct := List.Pairwise.nil
  committed _ _ h := by rcases h with h | h <;> cases h
  succeeded _ _ h := nomatch h

variable {s : ShardState ν}

omit [DecidableEq ν] in
theorem goOn_self (c) (call) : (s.goOn c call).calls c = call :=
  update_self ..

omit [DecidableEq ν] in
theorem goOn_of_ne {c c'} (h : c' ≠ c) (call) : (s.goOn c call).calls c' = s.calls c' :=
  update_of_ne h ..

omit [DecidableEq ν] in
theorem Consistent.goOn (h : Consistent setup s) {c call}
    (hahead : ∀ n, call.ahead = some n → (s.calls c).ahead = some n)
    (hcommitted : ∀ n, call = .committed n ∨ call = .unanswered n → n ∈ s.commits (setup.item c))
    (hsucceeded : ∀ n, call = .succeeded n → ⟨c, n⟩ ∈ s.log) :
    Consistent setup (s.goOn c call) := by
  -- whatever a write holds in the new state it held in the old one
  have hheld : ∀ c' n, ((s.goOn c call).calls c').ahead = some n → (s.calls c').ahead = some n := by
    intro c' n hn
    by_cases hc : c' = c
    · subst hc
      rw [goOn_self] at hn
      exact hahead n hn
    · rwa [goOn_of_ne hc] at hn
  refine ⟨h.fits, h.issued, ?_, h.logged, h.distinct, ?_, ?_⟩
  · intro c' n hn
    obtain ⟨hissued, hlog, honly⟩ := h.ahead c' n (hheld c' n hn)
    exact ⟨hissued, hlog, fun c'' hn' => honly c'' (hheld c'' n hn')⟩
  · intro c' n hn
    by_cases hc : c' = c
    · subst hc
      rw [goOn_self] at hn
      exact hcommitted n hn
    · rw [goOn_of_ne hc] at hn
      exact h.committed c' n hn
  · intro c' n hn
    by_cases hc : c' = c
    · subst hc
      rw [goOn_self] at hn
      exact hsucceeded n hn
    · rw [goOn_of_ne hc] at hn
      exact h.succeeded c' n hn

omit [DecidableEq ν] in
theorem Consistent.next_not_issued (h : Consistent setup s) (i nowMs reread) :
    ((s.clocks i).generateFrom nowMs reread).number ∉ s.issued := by
  intro hmem
  obtain ⟨j, hmod, hle⟩ := h.issued _ hmem
  have hfits := (h.fits i).1.generateFrom nowMs reread
  rw [hfits.number_mod, HybridClock.generateFrom_nodeId, (h.fits i).2] at hmod
  obtain rfl : i = j := setup.node_injective hmod
  exact absurd hle (Nat.not_le_of_lt ((h.fits i).1.number_lt nowMs reread))

theorem Consistent.draw (h : Consistent setup s) {c version} (nowMs reread)
    (hcall : s.calls c = .read version) :
    Consistent setup ((s.tick (setup.server c)
      ((s.clocks (setup.server c)).generateFrom nowMs reread)).goOn c
        (.drawn version ((s.clocks (setup.server c)).generateFrom nowMs reread).number)) := by
  have hnew := h.next_not_issued (setup.server c) nowMs reread
  have hlt := (h.fits (setup.server c)).1.number_lt nowMs reread
  have hfits := (h.fits (setup.server c)).1.generateFrom nowMs reread
  have hnode : ((s.clocks (setup.server c)).generateFrom nowMs reread).nodeId =
      setup.node (setup.server c) := by
    rw [HybridClock.generateFrom_nodeId, (h.fits (setup.server c)).2]
  generalize hclock : (s.clocks (setup.server c)).generateFrom nowMs reread = clock at *
  have hcalls : ∀ c', c' ≠ c → (update s.calls c
      (.drawn version clock.number)) c' = s.calls c' := fun c' hc =>
    update_of_ne hc ..
  -- only the server's clock and the call `c` change; the number was never issued before
  refine ⟨?_, ?_, ?_, ?_, h.distinct, ?_, ?_⟩
  · intro i
    by_cases hi : i = setup.server c
    · subst hi
      simp only [ShardState.goOn, tick, update_self]
      exact ⟨hfits, hnode⟩
    · simp only [ShardState.goOn, tick, update_of_ne hi]
      exact h.fits i
  · intro n hn
    rcases mem_cons.mp hn with rfl | hn
    · refine ⟨setup.server c, ?_, ?_⟩
      · rw [hfits.number_mod, hnode]
      · simp [ShardState.goOn, tick]
    obtain ⟨i, hmod, hle⟩ := h.issued n hn
    refine ⟨i, hmod, ?_⟩
    by_cases hi : i = setup.server c
    · subst hi
      simp only [ShardState.goOn, tick, update_self]
      omega
    · simp only [ShardState.goOn, tick, update_of_ne hi]
      exact hle
  · intro c' n hn
    by_cases hc : c' = c
    · subst hc
      simp only [ShardState.goOn, update_self, StreamCall.ahead, Option.some.injEq] at hn
      subst hn
      refine ⟨.head _, fun x hx heq => hnew (heq ▸ (h.logged x hx).1), fun c'' hn' => ?_⟩
      by_contra hne
      simp only [ShardState.goOn, tick, hcalls c'' hne] at hn'
      exact hnew (h.ahead c'' _ hn').1
    · simp only [ShardState.goOn, tick, hcalls c' hc] at hn
      obtain ⟨hissued, hlog, honly⟩ := h.ahead c' n hn
      refine ⟨.tail _ hissued, hlog, fun c'' hn' => ?_⟩
      by_cases hc'' : c'' = c
      · subst hc''
        simp only [ShardState.goOn, update_self, StreamCall.ahead, Option.some.injEq] at hn'
        subst hn'
        exact absurd hissued hnew
      · simp only [ShardState.goOn, tick, hcalls c'' hc''] at hn'
        exact honly c'' hn'
  · intro x hx
    exact ⟨.tail _ (h.logged x hx).1, (h.logged x hx).2⟩
  · intro c' n hn
    by_cases hc : c' = c
    · subst hc
      simp only [ShardState.goOn, update_self] at hn
      rcases hn with hn | hn <;> cases hn
    · simp only [ShardState.goOn, tick, hcalls c' hc] at hn
      exact h.committed c' n hn
  · intro c' n hn
    by_cases hc : c' = c
    · subst hc
      simp only [ShardState.goOn, update_self] at hn
      cases hn
    · simp only [ShardState.goOn, tick, hcalls c' hc] at hn
      exact h.succeeded c' n hn

omit [DecidableEq ν] in
theorem mem_update_commits {k k' number n} (h : n ∈ s.commits k) :
    n ∈ update s.commits k' (number :: s.commits k') k := by
  by_cases hk : k = k'
  · subst hk
    rw [update_self]
    exact .tail _ h
  · rwa [update_of_ne hk]

omit [DecidableEq ν] in
theorem length_commits_le (k k' number) :
    (s.commits k).length ≤ ((s.push k' number).commits k).length := by
  by_cases hk : k = k'
  · subst hk
    simp [push]
  · simp only [push, update_of_ne hk, le_refl]

omit [DecidableEq ν] in
theorem Consistent.commit (h : Consistent setup s) {c version number}
    (hcall : s.calls c = .drawn version number) :
    Consistent setup ((s.push (setup.item c) number).goOn c (.committed number)) := by
  have hbase : Consistent setup (s.push (setup.item c) number) :=
    ⟨h.fits, h.issued, h.ahead, fun x hx => ⟨(h.logged x hx).1, mem_update_commits (h.logged x hx).2⟩,
      h.distinct, fun c' n hn => mem_update_commits (h.committed c' n hn), h.succeeded⟩
  refine hbase.goOn (fun n hn => ?_) (fun n hn => ?_) fun n hn => nomatch hn
  · simp only [StreamCall.ahead, Option.some.injEq] at hn
    subst hn
    change (s.calls c).ahead = some number
    rw [hcall]
    rfl
  · rcases hn with hn | hn
    · cases hn
      simp [push]
    · cases hn

omit [DecidableEq ν] in
theorem Consistent.land (h : Consistent setup s) {c number next}
    (hcall : s.calls c = .committed number ∨ s.calls c = .unanswered number)
    (hnext : next = .succeeded number ∨ next = .ended) :
    Consistent setup ((s.land c number).goOn c next) := by
  have hheld : (s.calls c).ahead = some number := by
    rcases hcall with hcall | hcall <;> rw [hcall] <;> rfl
  obtain ⟨hissued, hlog, honly⟩ := h.ahead c number hheld
  have hnone : next.ahead = none := by rcases hnext with rfl | rfl <;> rfl
  have hlogged := h.committed c number hcall
  refine ⟨h.fits, h.issued, ?_, ?_, ?_, ?_, ?_⟩
  · intro c' n hn
    by_cases hc : c' = c
    · subst hc
      rw [goOn_self, hnone] at hn
      cases hn
    rw [goOn_of_ne hc] at hn
    obtain ⟨hissued', hlog', honly'⟩ := h.ahead c' n hn
    refine ⟨hissued', fun x hx heq => ?_, fun c'' hn' => ?_⟩
    · rcases mem_cons.mp hx with rfl | hx
      · simp only at heq
        subst heq
        exact hc (honly c' hn)
      · exact hlog' x hx heq
    · by_cases hc'' : c'' = c
      · subst hc''
        rw [goOn_self, hnone] at hn'
        cases hn'
      · rw [goOn_of_ne hc''] at hn'
        exact honly' c'' hn'
  · intro x hx
    rcases mem_cons.mp hx with rfl | hx
    · exact ⟨hissued, hlogged⟩
    · exact h.logged x hx
  · exact pairwise_cons.mpr ⟨fun x hx => (hlog x hx).symm, h.distinct⟩
  · intro c' n hn
    by_cases hc : c' = c
    · subst hc
      rw [goOn_self] at hn
      rcases hnext with rfl | rfl <;> rcases hn with hn | hn <;> cases hn
    · rw [goOn_of_ne hc] at hn
      exact h.committed c' n hn
  · intro c' n hn
    by_cases hc : c' = c
    · subst hc
      rw [goOn_self] at hn
      rcases hnext with rfl | rfl
      · cases hn
        exact .head _
      · cases hn
    · rw [goOn_of_ne hc] at hn
      exact .tail _ (h.succeeded c' n hn)

/-! ## What a step does -/

inductive Moves (setup : ShardSetup ν) (s : ShardState ν) : ShardEvent → ShardState ν → Prop where
  | goes {e c call} (hahead : ∀ n, call.ahead = some n → (s.calls c).ahead = some n)
      (hcommitted : ∀ n, call = .committed n ∨ call = .unanswered n → s.calls c = .committed n)
      (hsucceeded : ∀ n, call ≠ .succeeded n)
      (hread : ∀ version, call = .read version → version = (s.commits (setup.item c)).length)
      (hdrawn : ∀ version n, call ≠ .drawn version n) : Moves setup s e (s.goOn c call)
  | draws {c version} (nowMs reread : ℕ) (hcall : s.calls c = .read version) :
      Moves setup s (.draws c nowMs reread) ((s.tick (setup.server c)
        ((s.clocks (setup.server c)).generateFrom nowMs reread)).goOn c
          (.drawn version ((s.clocks (setup.server c)).generateFrom nowMs reread).number))
  | commits {c version number} (hcall : s.calls c = .drawn version number)
      (hversion : (s.commits (setup.item c)).length = version) :
      Moves setup s (.commits c) ((s.push (setup.item c) number).goOn c (.committed number))
  | lands {e c number next} (hcall : s.calls c = .committed number ∧ e = .lands c ∨
        s.calls c = .unanswered number ∧ e = .landsLate c)
      (hnext : next = .succeeded number ∨ next = .ended) :
      Moves setup s e ((s.land c number).goOn c next)
  | polls (reader : ℕ) {limit} (hlimit : 1 ≤ limit) :
      Moves setup s (.polls reader limit) (s.poll reader limit)

variable {e : ShardEvent} {s' : ShardState ν}

theorem moves_of_step (h : s.step setup e = some s') : Moves setup s e s' := by
  cases e <;> simp only [step] at h
  case reads c =>
    split at h
    · cases h
      exact .goes (fun _ hn => nomatch hn) (fun _ hn => by rcases hn with hn | hn <;> cases hn)
        (fun _ hn => nomatch hn) (fun _ hv => (StreamCall.read.inj hv).symm) fun _ _ hn => nomatch hn
    · cases h
  case draws c nowMs reread =>
    split at h
    · rename_i version hcall
      cases h
      exact .draws nowMs reread hcall
    · cases h
  case commits c =>
    split at h
    · rename_i version number hcall
      split at h
      · rename_i hversion
        cases h
        exact .commits hcall hversion
      · cases h
    · cases h
  case loses c =>
    split at h
    · split at h
      · cases h
      · cases h
        exact .goes (fun _ hn => nomatch hn) (fun _ hn => by rcases hn with hn | hn <;> cases hn)
          (fun _ hn => nomatch hn) (fun _ hn => nomatch hn) fun _ _ hn => nomatch hn
    · cases h
  case lands c =>
    split at h
    · rename_i number hcall
      cases h
      exact .lands (.inl ⟨hcall, rfl⟩) (.inl rfl)
    · cases h
  case losesAnswer c =>
    split at h
    · rename_i number hcall
      cases h
      refine .goes (fun n hn => ?_) (fun n hn => ?_) (fun _ hn => nomatch hn)
        (fun _ hn => nomatch hn) fun _ _ hn => nomatch hn
      · rw [hcall]
        exact hn
      rcases hn with hn | hn
      · cases hn
      · cases hn
        exact hcall
    · cases h
  case landsLate c =>
    split at h
    · rename_i number hcall
      cases h
      exact .lands (.inr ⟨hcall, rfl⟩) (.inr rfl)
    · cases h
  case ends c =>
    split at h
    · cases h
    · cases h
      exact .goes (fun _ hn => nomatch hn) (fun _ hn => by rcases hn with hn | hn <;> cases hn)
        (fun _ hn => nomatch hn) (fun _ hn => nomatch hn) fun _ _ hn => nomatch hn
  case polls reader limit =>
    split at h
    · rename_i hlimit
      cases h
      exact .polls reader hlimit
    · cases h

theorem Consistent.step (h : Consistent setup s)
    (hstep : s.step setup e = some s') : Consistent setup s' := by
  cases moves_of_step hstep with
  | goes hahead hcommitted hsucceeded _ _ =>
    exact h.goOn hahead (fun n hn => h.committed _ n (.inl (hcommitted n hn)))
      fun n hn => absurd hn (hsucceeded n)
  | draws nowMs reread hcall => exact h.draw nowMs reread hcall
  | commits hcall _ => exact h.commit hcall
  | lands hcall hnext =>
    refine h.land ?_ hnext
    rcases hcall with ⟨hcall, -⟩ | ⟨hcall, -⟩
    · exact .inl hcall
    · exact .inr hcall
  | polls reader hlimit =>
    exact ⟨h.fits, h.issued, h.ahead, h.logged, h.distinct, h.committed, h.succeeded⟩

/-- What holds while the clocks are in step and the records come in their order: a write that can
still commit has a number above the commits of its item, and every number on its way is above the
records that are there. -/
structure Ordered (setup : ShardSetup ν) (s : ShardState ν) : Prop where
  consistent : Consistent setup s
  issued : ∀ k, ∀ n ∈ s.commits k, n ∈ s.issued
  read : ∀ c version, s.calls c = .read version → version ≤ (s.commits (setup.item c)).length
  drawn : ∀ c version n, s.calls c = .drawn version n →
    version ≤ (s.commits (setup.item c)).length ∧ ((s.commits (setup.item c)).length = version →
      ∀ earlier ∈ s.commits (setup.item c), earlier < n)
  ahead : ∀ x ∈ s.log, ∀ c n, (s.calls c).ahead = some n → x.number < n
  cursors : ∀ reader k, (s.readers reader).cursor = some k → ∃ x ∈ s.log, x.number = k

omit [DecidableEq ν] in
theorem calls_goOn {c call c'} (P : StreamCall → Prop) (hself : c' = c → P call)
    (hother : c' ≠ c → P (s.calls c')) : P ((s.goOn c call).calls c') := by
  by_cases hc : c' = c
  · rw [hc, goOn_self]
    exact hself hc
  · rw [goOn_of_ne hc]
    exact hother hc

theorem Ordered.step (h : Ordered setup s) (hguard : s.InStep setup e)
    (hstep : s.step setup e = some s') : Ordered setup s' := by
  have hconsistent := h.consistent.step hstep
  cases moves_of_step hstep with
  | @goes _ c call hahead _ _ hread hdrawn =>
    refine ⟨hconsistent, h.issued, fun c' version => ?_, fun c' version n => ?_,
      fun x hx c' n => ?_, h.cursors⟩
    · exact calls_goOn (fun call => call = .read version → _)
        (fun hc hcall => hc ▸ (hread version hcall).le) fun _ => h.read c' version
    · exact calls_goOn (fun call => call = .drawn version n → _)
        (fun _ hcall => absurd hcall (hdrawn version n)) fun _ => h.drawn c' version n
    · exact calls_goOn (fun call => call.ahead = some n → _)
        (fun _ hn => h.ahead x hx c n (hahead n hn)) fun _ => h.ahead x hx c' n
  | @draws c version nowMs reread hcall =>
    refine ⟨hconsistent, fun k n hn => .tail _ (h.issued k n hn), fun c' version' => ?_,
      fun c' version' n => ?_, fun x hx c' n => ?_, h.cursors⟩
    · exact calls_goOn (s := s.tick _ _) (fun call => call = .read version' → _)
        (fun _ hcall' => nomatch hcall') fun _ => h.read c' version'
    · refine calls_goOn (s := s.tick _ _) (fun call => call = .drawn version' n → _)
        (fun hc hcall' => ?_) fun _ => h.drawn c' version' n
      cases hcall'
      subst hc
      exact ⟨h.read _ version hcall, fun _ earlier hmem => hguard _ (h.issued _ earlier hmem)⟩
    · refine calls_goOn (s := s.tick _ _) (fun call => call.ahead = some n → _)
        (fun _ hn => ?_) fun _ => h.ahead x hx c' n
      cases hn
      exact hguard _ (h.consistent.logged x hx).1
  | @commits c version number hcall hversion =>
    have hnumber : (s.calls c).ahead = some number := by rw [hcall]; rfl
    refine ⟨hconsistent, fun k n hn => ?_, fun c' version' => ?_, fun c' version' n => ?_,
      fun x hx c' n => ?_, h.cursors⟩
    · by_cases hk : k = setup.item c
      · subst hk
        simp only [goOn, push, update_self] at hn
        rcases mem_cons.mp hn with rfl | hn
        · exact (h.consistent.ahead c n hnumber).1
        · exact h.issued _ n hn
      · simp only [goOn, push, update_of_ne hk] at hn
        exact h.issued k n hn
    · refine calls_goOn (s := s.push _ _) (fun call => call = .read version' → _)
        (fun _ hcall' => nomatch hcall') fun _ hcall' => ?_
      exact (h.read c' version' hcall').trans (length_commits_le ..)
    · refine calls_goOn (s := s.push _ _) (fun call => call = .drawn version' n → _)
        (fun _ hcall' => nomatch hcall') fun _ hcall' => ?_
      obtain ⟨hle, hearlier⟩ := h.drawn c' version' n hcall'
      refine ⟨hle.trans (length_commits_le ..), ?_⟩
      by_cases hk : setup.item c' = setup.item c
      · simp only [goOn, push, hk, update_self, length_cons] at hle ⊢
        omega
      · simp only [goOn, push, update_of_ne hk]
        exact hearlier
    · refine calls_goOn (s := s.push _ _) (fun call => call.ahead = some n → _)
        (fun _ hn => ?_) fun _ => h.ahead x hx c' n
      cases hn
      exact h.ahead x hx c number hnumber
  | @lands _ c number next hcall hnext =>
    have hnumber : (s.calls c).ahead = some number := by
      rcases hcall with ⟨hcall, -⟩ | ⟨hcall, -⟩ <;> rw [hcall] <;> rfl
    have hnext' : next.ahead = none ∧ (∀ version, next ≠ .read version) ∧
        ∀ version n, next ≠ .drawn version n := by
      rcases hnext with rfl | rfl <;> exact ⟨rfl, nofun, nofun⟩
    refine ⟨hconsistent, h.issued, fun c' version => ?_, fun c' version n => ?_,
      fun x hx c' n => ?_, fun reader k hk => ?_⟩
    · exact calls_goOn (s := s.land _ _) (fun call => call = .read version → _)
        (fun _ hcall' => absurd hcall' (hnext'.2.1 version)) fun _ => h.read c' version
    · exact calls_goOn (s := s.land _ _) (fun call => call = .drawn version n → _)
        (fun _ hcall' => absurd hcall' (hnext'.2.2 version n)) fun _ => h.drawn c' version n
    · refine calls_goOn (s := s.land _ _) (fun call => call.ahead = some n → _)
        (fun _ hn => absurd (hnext'.1.symm.trans hn) (Option.some_ne_none n).symm) fun hc hn => ?_
      rcases mem_cons.mp hx with rfl | hx
      · have hle : number ≤ n := by
          rcases hcall with ⟨hcall, rfl⟩ | ⟨hcall, rfl⟩ <;> exact hguard number hnumber c' n hn
        refine hle.lt_of_ne fun heq => hc ?_
        exact (h.consistent.ahead c number hnumber).2.2 c' (heq ▸ hn)
      · exact h.ahead x hx c' n hn
    · obtain ⟨x, hx, heq⟩ := h.cursors reader k hk
      exact ⟨x, .tail _ hx, heq⟩
  | @polls reader limit _ =>
    refine ⟨hconsistent, h.issued, h.read, h.drawn, h.ahead, fun reader' k hk => ?_⟩
    by_cases hr : reader' = reader
    · subst hr
      simp only [poll, update_self, Reader.poll, Option.or_eq_some_iff] at hk
      rcases hk with hk | ⟨-, hk⟩
      · obtain ⟨x, hx, heq⟩ := Option.map_eq_some_iff.mp hk
        exact ⟨x, (mem_page (mem_of_getLast? hx)).1, heq⟩
      · exact h.cursors reader' k hk
    · simp only [poll, update_of_ne hr] at hk
      exact h.cursors reader' k hk

structure Followed (setup : ShardSetup ν) (s : ShardState ν) : Prop extends Ordered setup s where
  follows : ∀ reader, (s.readers reader).Follows ShardRecord.number s.log
  ordered : ∀ k, (s.commits k).Pairwise fun later earlier => earlier < later

theorem Followed.step (h : Followed setup s)
    (hguard : s.InStep setup e) (hstep : s.step setup e = some s') : Followed setup s' := by
  refine ⟨h.toOrdered.step hguard hstep, ?_, ?_⟩
  · intro reader
    cases moves_of_step hstep with
    | goes | draws | commits => exact h.follows reader
    | @lands _ c number next hcall hnext =>
      refine (h.follows reader).add fun k hk => ?_
      obtain ⟨x, hx, rfl⟩ := h.cursors reader k hk
      refine h.ahead x hx c number ?_
      rcases hcall with ⟨hcall, -⟩ | ⟨hcall, -⟩ <;> rw [hcall] <;> rfl
    | polls reader' hlimit =>
      by_cases hr : reader = reader'
      · subst hr
        simp only [poll, update_self]
        exact (h.follows reader).poll h.consistent.distinct _
      · simp only [poll, update_of_ne hr]
        exact h.follows reader
  · intro k
    cases moves_of_step hstep with
    | goes | draws | lands | polls => exact h.ordered k
    | @commits c version number hcall hversion =>
      simp only [goOn, push]
      by_cases hk : k = setup.item c
      · subst hk
        rw [update_self]
        exact pairwise_cons.mpr ⟨(h.drawn c version number hcall).2 hversion, h.ordered _⟩
      · rw [update_of_ne hk]
        exact h.ordered k

omit [DecidableEq ν] in
theorem followed_initial (setup : ShardSetup ν) : Followed setup (.initial setup) where
  consistent := consistent_initial setup
  issued _ _ h := nomatch h
  read _ _ h := nomatch h
  drawn _ _ _ h := nomatch h
  ahead _ h := nomatch h
  cursors _ _ h := nomatch h
  follows _ := Reader.follows_fresh
  ordered _ := List.Pairwise.nil

theorem polls_gap_step (hstep : s.step setup e = some s') {x} (hx : x ∈ s.log) (reader bound)
    (hbound : gap (s.readers reader).cursor x.number = 0 ∨
      s.polls reader + gap (s.readers reader).cursor x.number ≤ bound) :
    x ∈ s'.log ∧ (gap (s'.readers reader).cursor x.number = 0 ∨
      s'.polls reader + gap (s'.readers reader).cursor x.number ≤ bound) := by
  cases moves_of_step hstep with
  | goes | draws | commits => exact ⟨hx, hbound⟩
  | lands => exact ⟨.tail _ hx, hbound⟩
  | @polls reader' limit hlimit =>
    refine ⟨hx, ?_⟩
    by_cases hr : reader = reader'
    · subst hr
      simp only [poll, update_self]
      exact Reader.polls_gap_poll hx hlimit hbound
    · simp only [poll, update_of_ne hr]
      exact hbound

end ShardState

open EventRun ShardState

def ShardInStep (setup : ShardSetup ν) : ShardState ν → ShardState ν → Prop :=
  Reaches (ShardState.step setup) (InStep setup)

theorem ShardInStep.followed {s s'} (h : ShardInStep setup s s') (hs : Followed setup s) :
    Followed setup s' :=
  h.keeps (fun _ _ _ hguard hstep hI => hI.step hguard hstep) hs

/-- Readers pass no record while the clocks are in step and records are written in the order of
their numbers: each record is returned at most once, that of a write that reported success after at
most as many polls as its number is above the cursor, and those of one item in the order of its
commits. -/
theorem stream_readers_pass_no_record (setup : ShardSetup ν) (s : ShardState ν)
    (hrun : ShardInStep setup (.initial setup) s) (reader : ℕ) : (s.readers reader).got.Nodup ∧
    (∀ x ∈ (s.readers reader).got, x ∈ s.log ∧ x.number ∈ s.commits (setup.item x.call)) ∧
    (∀ c n, s.calls c = .succeeded n → ∀ s', ShardInStep setup s s' →
      s.polls reader + gap (s.readers reader).cursor n ≤ s'.polls reader →
      ⟨c, n⟩ ∈ (s'.readers reader).got) ∧
    ∀ k, (((s.readers reader).got.filter fun x => setup.item x.call = k).map
      ShardRecord.number).Sublist (s.commits k).reverse := by
  have h := hrun.followed (followed_initial setup)
  refine ⟨(h.follows reader).nodup, ?_, ?_, ?_⟩
  · intro x hx
    have hlog := (h.follows reader).sound x hx
    exact ⟨hlog, (h.consistent.logged x hlog).2⟩
  · intro c n hcall s' hrun' hpolls
    have hx := h.consistent.succeeded c n hcall
    obtain ⟨hfollowed, hx', hbound⟩ := hrun'.keeps
      (I := fun s' => Followed setup s' ∧ (⟨c, n⟩ : ShardRecord) ∈ s'.log ∧
        (gap (s'.readers reader).cursor n = 0 ∨ s'.polls reader + gap (s'.readers reader).cursor n ≤
          s.polls reader + gap (s.readers reader).cursor n))
      (fun _ _ _ hguard hstep ⟨hf, hmem, hb⟩ =>
        ⟨hf.step hguard hstep, polls_gap_step hstep hmem reader _ hb⟩)
      ⟨h, hx, .inr (Nat.le_refl _)⟩
    refine (hfollowed.follows reader).mem_got hx' ?_
    rcases hbound with hzero | hbound
    · exact hzero
    · have hgap : gap (s'.readers reader).cursor n = 0 := by omega
      exact hgap
  · intro k
    have hgot : (((s.readers reader).got.filter fun x => setup.item x.call = k).map
        ShardRecord.number).Pairwise (· < ·) :=
      pairwise_map.mpr ((h.follows reader).ascending.filter _)
    have hcommits : (s.commits k).reverse.Pairwise (· < ·) :=
      pairwise_reverse.mpr (h.ordered k)
    have hsubset : (((s.readers reader).got.filter fun x => setup.item x.call = k).map
        ShardRecord.number) ⊆ (s.commits k).reverse := by
      intro n hn
      obtain ⟨x, hx, rfl⟩ := mem_map.mp hn
      obtain ⟨hx, hitem⟩ := mem_filter.mp hx
      have hlog := (h.follows reader).sound x hx
      rw [mem_reverse, ← decide_eq_true_eq.mp hitem]
      exact (h.consistent.logged x hlog).2
    exact sublist_of_subperm_of_pairwise (subperm_of_subset (hgot.imp Nat.ne_of_lt) hsubset)
      (hgot.imp Nat.le_of_lt) (hcommits.imp Nat.le_of_lt)

/-! ## Two writes of one shard -/

def oneInstance : ShardSetup Unit where
  item := fun c => c
  server := fun _ => ()
  node := fun _ => 1
  node_lt := fun _ => by decide
  node_injective := fun _ _ _ => rfl

def twoInstances : ShardSetup Bool where
  item := fun c => c / 2
  server := fun c => c == 1
  node := Bool.toNat
  node_lt := fun i => by cases i <;> decide
  node_injective := fun i j h => by cases i <;> cases j <;> cases h <;> rfl

/-- Two instances write one item at the same time, the loser reads again and commits behind the
winner, and a write of another item overlaps with both; a reader polls in between. -/
theorem stream_readers_pass_no_record_two :
    ∃ s, ShardInStep twoInstances (.initial twoInstances) s ∧
      (s.readers 0).got = [⟨1, 60000000001⟩, ⟨2, 70000000000⟩, ⟨0, 80000000000⟩] ∧
      (s.readers 0).got.Nodup ∧ s.commits 0 = [80000000000, 60000000001] := by
  have hadmits : Admits (step twoInstances) (InStep twoInstances) (.initial twoInstances)
      [.reads 0, .reads 1, .draws 0 5 0, .draws 1 6 0, .commits 1, .polls 0 1, .loses 0, .reads 2,
        .draws 2 7 0, .lands 1, .polls 0 10, .reads 0, .draws 0 8 0, .commits 2, .commits 0, .lands 2,
        .polls 0 1, .lands 0, .polls 0 1] := by
    refine .cons trivial rfl <| .cons trivial rfl <| .cons (fun n hn => nomatch hn) rfl <|
      .cons (show ∀ n ∈ [50000000000], n < 60000000001 by decide) rfl <| .cons trivial rfl <|
      .cons trivial rfl <| .cons trivial rfl <| .cons trivial rfl <|
      .cons (show ∀ n ∈ [60000000001, 50000000000], n < 70000000000 by decide) rfl <|
      .cons ?_ rfl <| .cons trivial rfl <| .cons trivial rfl <|
      .cons (show ∀ n ∈ [70000000000, 60000000001, 50000000000], n < 80000000000 by decide) rfl <|
      .cons trivial rfl <| .cons trivial rfl <| .cons ?_ rfl <| .cons trivial rfl <|
      .cons ?_ rfl <| .cons trivial rfl trivial
    all_goals
      intro n hn c' m hm
      rcases c' with _ | _ | _ | c' <;> cases hn <;> cases hm <;> decide
  have hrun : ShardInStep twoInstances (.initial twoInstances) _ := .of_admits hadmits rfl
  exact ⟨_, hrun, rfl, (stream_readers_pass_no_record twoInstances _ hrun 0).1, rfl⟩

theorem ShardState.never_returned {s s' x reader} (h : Reaches (step setup) Anything s s')
    (hcursor : ¬ Above (s.readers reader).cursor x.number) (hgot : x ∉ (s.readers reader).got) :
    x ∉ (s'.readers reader).got := by
  refine (h.keeps (I := fun s => ¬ Above (s.readers reader).cursor x.number ∧
    x ∉ (s.readers reader).got) ?_ ⟨hcursor, hgot⟩).2
  intro s e s' _ hstep ⟨hcursor, hgot⟩
  cases moves_of_step hstep with
  | goes | draws | commits | lands => exact ⟨hcursor, hgot⟩
  | @polls reader' limit hlimit =>
    by_cases hr : reader = reader'
    · subst hr
      simp only [poll, update_self]
      refine ⟨fun habove => ?_, fun hmem => ?_⟩
      · have hle := (s.readers reader).gap_poll_le ShardRecord.number s.log limit x.number
        have hpos := gap_pos_iff.mpr habove
        exact hcursor (gap_pos_iff.mp (by omega))
      · rcases mem_append.mp hmem with hmem | hmem
        · exact hgot hmem
        · exact hcursor (mem_page hmem).2
    · simp only [poll, update_of_ne hr]
      exact ⟨hcursor, hgot⟩

/-- The first write draws its number, the second one draws, commits and lands and is read, and then
the first one commits and lands: it reports success, and its record is never returned. -/
theorem stream_record_passed :
    ∃ s, Reaches (ShardState.step oneInstance) Anything (.initial oneInstance) s ∧
      s.calls 0 = .succeeded 10000000001 ∧ (⟨0, 10000000001⟩ : ShardRecord) ∈ s.log ∧
      ∀ s', Reaches (ShardState.step oneInstance) Anything s s' →
        (⟨0, 10000000001⟩ : ShardRecord) ∉ (s'.readers 0).got := by
  have hrun : Reaches (step oneInstance) Anything (.initial oneInstance) _ :=
    .of_run [.reads 0, .draws 0 1 0, .reads 1, .draws 1 2 0, .commits 1, .lands 1,
      .polls 0 10, .commits 0, .lands 0] rfl
  refine ⟨_, hrun, rfl, .head _, fun s' hrun' => ?_⟩
  refine never_returned hrun' (fun habove => ?_) fun hmem => ?_
  · exact absurd (habove 20000000001 rfl) (by decide)
  · exact absurd (mem_singleton.mp hmem) (by decide)

end ExtendDb.Cassandra
