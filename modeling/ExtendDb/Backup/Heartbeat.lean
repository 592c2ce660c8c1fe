import Mathlib.Algebra.Order.Ring.Nat

/-!
# The heartbeat of a backup job

The database stamps `heartbeat_at` when it executes a beat; the job notes the confirmation when it
reads the answer.  A stopped process reads it any time later.
-/

namespace ExtendDb.Backup

inductive Beat where
  | idle
  | sent (started : Nat)
  | answered (started : Nat) (confirmed : Bool)
  -- given up by its timeout, and still to be executed
  | expired
deriving DecidableEq

/-- Instants in nanoseconds.  `span` is the time from the start of the last confirmed beat to its
confirmation. -/
structure Job where
  now : Nat
  heartbeatAt : Nat
  lastConfirmed : Nat
  span : Nat
  lost : Bool := false
  takenOver : Bool := false
  beats : Nat → Beat := fun _ => .idle

inductive HeartbeatEvent where
  | pass (elapsed : Nat)
  | start (b : Nat)
  | execute (b : Nat)
  -- of the timer, which raises the loss, or of a re-check
  | returns (b : Nat) (timer : Bool)
  | expires (b : Nat) (timer : Bool)
  | takeOver

namespace Job

variable (period staleAfter : Nat) (s : Job)

def confirmsTheClaim : Bool := !s.lost && s.now - s.lastConfirmed ≤ 2 * period

def goOn (b : Nat) (beat : Beat) : Job := { s with beats := Function.update s.beats b beat }

def stamp : Job := if s.takenOver then s else { s with heartbeatAt := s.now }

def step : HeartbeatEvent → Job
  | .pass elapsed => { s with now := s.now + elapsed }
  | .start b => if s.beats b = .idle then s.goOn b (.sent s.now) else s
  | .execute b => match s.beats b with
    | .sent started => s.stamp.goOn b (.answered started !s.takenOver)
    | .expired => s.stamp.goOn b .idle
    | _ => s
  | .returns b timer => match s.beats b with
    | .answered started true =>
      { s with lastConfirmed := s.now, span := s.now - started }.goOn b .idle
    | .answered _ false => { s with lost := s.lost || timer }.goOn b .idle
    | _ => s
  | .expires b timer => match s.beats b with
    | .sent started =>
      if started + period ≤ s.now then { s with lost := s.lost || timer }.goOn b .expired else s
    | _ => s
  | .takeOver => if s.heartbeatAt + staleAfter < s.now then { s with takenOver := true } else s

end Job

section

variable (staleAfter : Nat) (s : Job)

def Beat.Sound : Beat → Prop
  | .sent started => started ≤ s.now
  | .answered started true => started ≤ s.heartbeatAt
  | _ => True

structure HeartbeatInvariant : Prop where
  stamped : s.heartbeatAt ≤ s.now
  confirmed : s.lastConfirmed ≤ s.heartbeatAt + s.span
  takenOver : s.takenOver = true → s.heartbeatAt + staleAfter < s.now
  beats : ∀ b, (s.beats b).Sound s

end

namespace HeartbeatInvariant

variable {period staleAfter : Nat} {s : Job} (h : HeartbeatInvariant staleAfter s)
include h

theorem goOn {b beat} (hbeat : beat.Sound s) : HeartbeatInvariant staleAfter (s.goOn b beat) where
  stamped := h.stamped
  confirmed := h.confirmed
  takenOver := h.takenOver
  beats := (Function.forall_update_iff _ _).mpr ⟨hbeat, fun c _ => h.beats c⟩

/-- Time passes, and the row may be stamped. -/
theorem later {s' : Job} (hbeats : s'.beats = s.beats) (hnow : s.now ≤ s'.now)
    (hstamp : s.heartbeatAt ≤ s'.heartbeatAt) (b) : (s'.beats b).Sound s' := by
  have hb := h.beats b
  rw [hbeats]
  revert hb
  cases s.beats b with
  | idle | expired => exact id
  | sent started => exact hnow.trans'
  | answered started confirmed =>
    cases confirmed with
    | true => exact hstamp.trans'
    | false => exact id

theorem stamp : HeartbeatInvariant staleAfter s.stamp := by
  unfold Job.stamp
  split
  · exact h
  · rename_i hfree
    exact ⟨Nat.le_refl _, h.confirmed.trans (Nat.add_le_add_right h.stamped _),
      fun htaken => absurd htaken hfree, h.later rfl (Nat.le_refl _) h.stamped⟩

theorem step (e) : HeartbeatInvariant staleAfter (s.step period staleAfter e) := by
  have hstamped := h.stamped
  have hraised (lost : Bool) : HeartbeatInvariant staleAfter { s with lost } :=
    ⟨hstamped, h.confirmed, h.takenOver, h.beats⟩
  cases e with
  | pass elapsed =>
    have hnow := Nat.le_add_right s.now elapsed
    exact ⟨hstamped.trans hnow, h.confirmed, fun htaken => (h.takenOver htaken).trans_le hnow,
      h.later rfl hnow (Nat.le_refl _)⟩
  | start b =>
    simp only [Job.step]
    split
    · exact h.goOn (Nat.le_refl _)
    · exact h
  | execute b =>
    have hb := h.beats b
    simp only [Job.step]
    split
    · rename_i started hsent
      rw [hsent] at hb
      refine h.stamp.goOn ?_
      cases htaken : s.takenOver with
      | true => trivial
      | false => simpa [Beat.Sound, Job.stamp, htaken] using hb
    · exact h.stamp.goOn trivial
    · exact h
  | returns b timer =>
    have hb := h.beats b
    simp only [Job.step]
    split
    · rename_i started hanswer
      rw [hanswer] at hb
      -- whatever stamped the row last did so after this beat was started
      have hstarted : started ≤ s.heartbeatAt := hb
      have hrecorded : HeartbeatInvariant staleAfter
          { s with lastConfirmed := s.now, span := s.now - started } :=
        ⟨hstamped, by simp only; omega, h.takenOver, h.beats⟩
      exact hrecorded.goOn trivial
    · exact (hraised _).goOn trivial
    · exact h
  | expires b timer =>
    simp only [Job.step]
    split
    · split
      · exact (hraised _).goOn trivial
      · exact h
    · exact h
  | takeOver =>
    simp only [Job.step]
    split
    · rename_i hstale
      exact ⟨hstamped, h.confirmed, fun _ => hstale, h.beats⟩
    · exact h

end HeartbeatInvariant

/-- The row of a claim, and the instant its job takes for the first confirmed beat. -/
def Job.claim (inserted claimedAt later : Nat) : Job where
  now := max inserted claimedAt + later
  heartbeatAt := inserted
  lastConfirmed := claimedAt
  span := claimedAt - inserted

/-- With a stale window of three periods or more: where the check passes, `heartbeat_at` is at most
two periods and the span of the last confirmed beat old, and no reconciler took the row over where
that beat was confirmed within a period of its start. -/
theorem preput_check_sound (period extra inserted claimedAt later : Nat)
    (events : List HeartbeatEvent) :
    let s := events.foldl (Job.step period (3 * period + extra)) (.claim inserted claimedAt later)
    s.confirmsTheClaim period = true → s.now ≤ s.heartbeatAt + (2 * period + s.span) ∧
      (s.span ≤ period → s.now ≤ s.heartbeatAt + 3 * period ∧ s.takenOver = false) := by
  intro s hcheck
  have hstart : HeartbeatInvariant (3 * period + extra) (.claim inserted claimedAt later) := by
    refine ⟨?_, ?_, (fun htaken => by cases htaken), fun b => trivial⟩
    all_goals
      simp only [Job.claim]
      omega
  obtain ⟨hstamped, hconfirmed, htaken, -⟩ : HeartbeatInvariant (3 * period + extra) s :=
    List.foldlRecOn events (Job.step period _) hstart fun s h event _ => h.step event
  have hfresh : s.now - s.lastConfirmed ≤ 2 * period := by
    simp only [Job.confirmsTheClaim, Bool.and_eq_true, decide_eq_true_eq] at hcheck
    exact hcheck.2
  refine ⟨by omega, fun hspan => ⟨by omega, Bool.eq_false_iff.mpr fun htook => ?_⟩⟩
  have := htaken htook
  omega

/-- A beat that is answered within a period, half of the time the check allows after it. -/
theorem preput_check_sound_beat :
    let s := [.start 0, .execute 0, .pass 2, .returns 0 true, .pass 2].foldl (Job.step 2 6)
      (.claim 0 0 0)
    s.confirmsTheClaim 2 = true ∧ s.span = 2 ∧ s.now = 4 ∧ s.now ≤ s.heartbeatAt + 3 * 2 ∧
      s.takenOver = false := by
  have hsound := preput_check_sound 2 0 0 0 0
    [.start 0, .execute 0, .pass 2, .returns 0 true, .pass 2] (by decide)
  exact ⟨by decide, by decide, by decide, hsound.2 (by decide)⟩

/-- A process that is stopped while its beat is answered, for longer than the stale window. -/
theorem preput_check_stopped :
    let s := [.start 0, .execute 0, .pass 10, .takeOver, .returns 0 true].foldl (Job.step 1 3)
      (.claim 0 0 0)
    s.confirmsTheClaim 1 = true ∧ s.takenOver = true ∧ s.now - s.heartbeatAt = 10 := by
  decide

end ExtendDb.Backup
