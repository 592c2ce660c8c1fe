import ExtendDb.Cassandra.Database

/-!
# Replays of a client request token

The calls that share one token of one account, in any interleaving of their statements.  A call
reserves the token before it writes its ledger entry, and releases it only when PREPARE has
cancelled it.  A member that writes is applied only under the transaction's marker, which PREPARE
need not have placed on its row.
-/

namespace ExtendDb.Cassandra

open Function

/-- The reservation, with the call that made it. -/
structure TokenRow where
  fingerprint : String
  owner : Nat
deriving DecidableEq

inductive TokenCall where
  | idle
  | selecting (fingerprint : String)
  | inserting (fingerprint : String)
  | rechecking (fingerprint : String)
  /-- Past `check_idempotency_token`. -/
  | reserved (fingerprint : String)
  /-- The ledger entry is written. -/
  | preparing (fingerprint : String)
  /-- Before the ledger's blob, and before its state COMMITTING. -/
  | prepared (fingerprint : String)
  | filled (fingerprint : String)
  | committing (fingerprint : String)
  | rollingBack (fingerprint : String)
  /-- Before `delete_idempotency_token`. -/
  | releasing (fingerprint : String)
  | replayed (fingerprint : String)
  | ended
deriving DecidableEq

def TokenCall.undecided? : TokenCall → Option String
  | .reserved fp | .preparing fp | .prepared fp | .filled fp | .rollingBack fp | .releasing fp =>
    some fp
  | _ => none

/-- The members of a call that write: those applied, those whose row carries the marker, and those
whose row does not. -/
structure MemberCount where
  applied : Nat
  marked : Nat
  unmarked : Nat
deriving DecidableEq

structure TokenState where
  token : Option TokenRow
  ledger : Nat → Option TransactionState
  calls : Nat → TokenCall
  /-- The calls whose own ledger entry has been set to COMMITTING. -/
  commits : List (Nat × String)
  members : Nat → MemberCount
  /-- A recovery pass that has found the entry before COMMITTING is under way. -/
  rollbacks : Nat → Bool

namespace TokenState

def initial : TokenState :=
  ⟨none, fun _ => none, fun _ => .idle, [], fun _ => ⟨0, 0, 0⟩, fun _ => false⟩

def goOn (s : TokenState) (c : Nat) (call : TokenCall) : TokenState :=
  { s with calls := update s.calls c call }

def setLedger (s : TokenState) (c : Nat) (state : Option TransactionState) : TokenState :=
  { s with ledger := update s.ledger c state }

def setMembers (s : TokenState) (c : Nat) (count : MemberCount) : TokenState :=
  { s with members := update s.members c count }

def setRollback (s : TokenState) (c : Nat) (underWay : Bool) : TokenState :=
  { s with rollbacks := update s.rollbacks c underWay }

def reserve (s : TokenState) (c : Nat) (fingerprint : String) : TokenState :=
  { s with token := some ⟨fingerprint, c⟩ }

/-- The entry of the call says COMMITTING. -/
def commit (s : TokenState) (c : Nat) (fingerprint : String) : TokenState :=
  { s.setLedger c (some .committing) with commits := (c, fingerprint) :: s.commits }

end TokenState

inductive TokenEvent where
  | quiet
  /-- A call reads the reservation of `owner`. -/
  | found (owner : Nat)
  /-- A call ends on an error before its ledger entry says COMMITTING, and keeps the token. -/
  | fault (c : Nat)
  /-- The reservation is applied, but answered with an error. -/
  | unanswered
  /-- The ledger entry of the call is set to COMMITTING. -/
  | commits (c : Nat)
  /-- A recovery pass takes a marker of the call back, or deletes its ledger entry as rolled back. -/
  | takesBack (c : Nat)
deriving DecidableEq

open TokenState in
inductive TokenStep : TokenEvent → TokenState → TokenState → Prop where
  | start {s c fp} (hcall : s.calls c = .idle) : TokenStep .quiet s (s.goOn c (.selecting fp))
  -- `check_idempotency_token`
  | selectFails {s c fp} (hcall : s.calls c = .selecting fp) : TokenStep .quiet s (s.goOn c .ended)
  | selectAbsent {s c fp} (hcall : s.calls c = .selecting fp) (htoken : s.token = none) :
      TokenStep .quiet s (s.goOn c (.inserting fp))
  | selectReplay {s c fp row} (hcall : s.calls c = .selecting fp) (htoken : s.token = some row)
      (hsame : row.fingerprint = fp) : TokenStep (.found row.owner) s (s.goOn c (.replayed fp))
  | selectMismatch {s c fp row} (hcall : s.calls c = .selecting fp) (htoken : s.token = some row)
      (hother : row.fingerprint ≠ fp) : TokenStep .quiet s (s.goOn c .ended)
  | insertApplied {s c fp} (hcall : s.calls c = .inserting fp) (htoken : s.token = none) :
      TokenStep .quiet s ((s.reserve c fp).goOn c (.reserved fp))
  | insertRefused {s c fp row} (hcall : s.calls c = .inserting fp) (htoken : s.token = some row) :
      TokenStep .quiet s (s.goOn c (.rechecking fp))
  | insertFails {s c fp} (hcall : s.calls c = .inserting fp) : TokenStep .quiet s (s.goOn c .ended)
  | insertUnanswered {s c fp} (hcall : s.calls c = .inserting fp) (htoken : s.token = none) :
      TokenStep .unanswered s ((s.reserve c fp).goOn c .ended)
  | recheckFails {s c fp} (hcall : s.calls c = .rechecking fp) :
      TokenStep .quiet s (s.goOn c .ended)
  -- the row is gone again: the call goes on without a reservation
  | recheckAbsent {s c fp} (hcall : s.calls c = .rechecking fp) (htoken : s.token = none) :
      TokenStep .quiet s (s.goOn c (.reserved fp))
  | recheckReplay {s c fp row} (hcall : s.calls c = .rechecking fp) (htoken : s.token = some row)
      (hsame : row.fingerprint = fp) : TokenStep (.found row.owner) s (s.goOn c (.replayed fp))
  | recheckMismatch {s c fp row} (hcall : s.calls c = .rechecking fp) (htoken : s.token = some row)
      (hother : row.fingerprint ≠ fp) : TokenStep .quiet s (s.goOn c .ended)
  -- `initial_ledger_ops` and `write_ledger_entry`
  | ledgerOpsFail {s c fp} (hcall : s.calls c = .reserved fp) :
      TokenStep (.fault c) s (s.goOn c .ended)
  | ledgerWritten {s c fp} (hcall : s.calls c = .reserved fp) :
      TokenStep .quiet s ((s.setLedger c (some .preparing)).goOn c (.preparing fp))
  | ledgerFails {s c fp entry} (hcall : s.calls c = .reserved fp)
      (hentry : entry = s.ledger c ∨ entry = some .preparing) :
      TokenStep (.fault c) s ((s.setLedger c entry).goOn c .ended)
  -- a Delete that loses the race for its placeholder row goes on without a marker
  | prepareSucceeds {s c fp marked unmarked} (hcall : s.calls c = .preparing fp) :
      TokenStep .quiet s ((s.setMembers c ⟨0, marked, unmarked⟩).goOn c (.prepared fp))
  | prepareFails {s c fp} (hcall : s.calls c = .preparing fp) :
      TokenStep .quiet s (s.goOn c (.rollingBack fp))
  | blobWritten {s c fp} (hcall : s.calls c = .prepared fp) :
      TokenStep .quiet s (s.goOn c (.filled fp))
  | blobFails {s c fp} (hcall : s.calls c = .prepared fp) : TokenStep (.fault c) s (s.goOn c .ended)
  -- the commit phase sets the state first; an error may come after the state was set
  | stateSet {s c fp next} (hcall : s.calls c = .filled fp) (hledger : s.ledger c = some .preparing)
      (hnext : next = .committing fp ∨ next = .ended) :
      TokenStep (.commits c) s ((s.commit c fp).goOn c next)
  | stateFails {s c fp} (hcall : s.calls c = .filled fp) : TokenStep (.fault c) s (s.goOn c .ended)
  -- recovery has rolled the entry back: the statement leaves an entry without members
  | stateOrphaned {s c fp} (hcall : s.calls c = .filled fp) (hledger : s.ledger c = none) :
      TokenStep (.fault c) s ((s.setLedger c (some .committing)).goOn c .ended)
  | commitEnds {s c fp entry} (hcall : s.calls c = .committing fp)
      (hentry : entry = s.ledger c ∨
        entry = none ∧ (s.members c).marked = 0 ∧ (s.members c).unmarked = 0) :
      TokenStep .quiet s ((s.setLedger c entry).goOn c .ended)
  -- an error of the rollback is only logged
  | rollbackEnds {s c fp entry} (hcall : s.calls c = .rollingBack fp)
      (hentry : entry = s.ledger c ∨ entry = some .cancelling ∨ entry = none) :
      TokenStep .quiet s ((s.setLedger c entry).goOn c (.releasing fp))
  | released {s c fp} (hcall : s.calls c = .releasing fp) :
      TokenStep .quiet s ({ s with token := none }.goOn c .ended)
  | releaseFails {s c fp} (hcall : s.calls c = .releasing fp) :
      TokenStep (.fault c) s (s.goOn c .ended)
  -- the coordinator or a recovery pass applies a member under its marker
  | memberApplied {s c fp marked} (hcommits : (c, fp) ∈ s.commits)
      (hledger : s.ledger c = some .committing) (hmarked : (s.members c).marked = marked + 1) :
      TokenStep .quiet s (s.setMembers c
        ⟨(s.members c).applied + 1, marked, (s.members c).unmarked⟩)
  -- recovery skips the members without a marker
  | recoveryCommits {s c} (hledger : s.ledger c = some .committing)
      (hmarked : (s.members c).marked = 0) : TokenStep .quiet s (s.setLedger c none)
  | recoveryReads {s c state} (hledger : s.ledger c = some state) (hstate : state ≠ .committing) :
      TokenStep .quiet s (s.setRollback c true)
  | recoveryUnmarks {s c marked} (hpass : s.rollbacks c = true)
      (hmarked : (s.members c).marked = marked + 1) :
      TokenStep (.takesBack c) s (s.setMembers c
        ⟨(s.members c).applied, marked, (s.members c).unmarked + 1⟩)
  | recoveryCancels {s c} (hpass : s.rollbacks c = true) :
      TokenStep (.takesBack c) s ((s.setLedger c none).setRollback c false)
  | expires {s} : TokenStep .quiet s { s with token := none }

def TokenReachable (s : TokenState) : Prop :=
  Relation.ReflTransGen (fun s s' => ∃ event, TokenStep event s s') .initial s

/-- Every member of the call that writes has been applied, or its row carries the marker and the
entry from which recovery applies it is there. -/
def TokenState.Secured (s : TokenState) (c : Nat) : Prop :=
  (s.members c).unmarked = 0 ∧ ((s.members c).marked = 0 ∨ s.ledger c = some .committing)

/-- Every call answered as a replay repeats another call with its fingerprint, which was set to
COMMITTING and has committed its writes or left them to recovery. -/
def TokenState.ReplaysCommitted (s : TokenState) : Prop :=
  ∀ c fp, s.calls c = .replayed fp → ∃ d, d ≠ c ∧ (d, fp) ∈ s.commits ∧ s.Secured d

/-- A call that holds the token ends only with its ledger entry at COMMITTING or with the token
deleted, and until then no other call finds its reservation.  When its entry is set to COMMITTING all
rows it writes carry its marker, and a recovery pass takes nothing back from then on. -/
def TokenState.Undisturbed (s : TokenState) : TokenEvent → Prop
  | .quiet => True
  | .found owner => (s.calls owner).undecided? = none
  | .fault c => ∀ row, s.token = some row → row.owner ≠ c
  | .unanswered => False
  | .commits c => ∀ row, s.token = some row → row.owner = c → (s.members c).unmarked = 0
  | .takesBack c => s.ledger c ≠ some .committing

def TokenGuardedReachable (s : TokenState) : Prop :=
  Relation.ReflTransGen (fun s s' => ∃ event, TokenStep event s s' ∧ s.Undisturbed event) .initial s

/-! ### The invariant -/

def TokenState.Settled (s : TokenState) (c : Nat) (fp : String) : Prop :=
  (c, fp) ∈ s.commits ∧ s.Secured c

structure TokenInvariant (s : TokenState) : Prop where
  token : ∀ row, s.token = some row → s.Settled row.owner row.fingerprint ∨
    (s.calls row.owner).undecided? = some row.fingerprint
  commits : ∀ c fp, (c, fp) ∈ s.commits → s.calls c = .committing fp ∨ s.calls c = .ended
  replays : ∀ c fp, s.calls c = .replayed fp → ∃ d, s.Settled d fp

theorem tokenInvariant_initial : TokenInvariant .initial where
  token row hrow := by cases hrow
  commits c fp hmem := by cases hmem
  replays c fp hcall := by cases hcall

namespace TokenInvariant

variable {s : TokenState}

variable (h : TokenInvariant s)
include h

/-- A step beside the calls and the token keeps what is secured. -/
theorem beside {s' : TokenState} (htoken : s'.token = s.token) (hcalls : s'.calls = s.calls)
    (hcommits : s'.commits = s.commits)
    (hsecured : ∀ d fp, s.Settled d fp → s'.Secured d) : TokenInvariant s' where
  token row hrow := by
    rw [hcalls]
    exact (h.token row (htoken ▸ hrow)).imp_left fun hs => ⟨hcommits ▸ hs.1, hsecured _ _ hs⟩
  commits c fp hmem := by
    rw [hcalls]
    exact h.commits c fp (hcommits ▸ hmem)
  replays c fp hcall := by
    obtain ⟨d, hs⟩ := h.replays c fp (hcalls ▸ hcall)
    exact ⟨d, hcommits ▸ hs.1, hsecured d fp hs⟩

theorem setLedger (c) (entry)
    (hc : ∀ fp, s.Settled c fp → (s.members c).marked = 0 ∨ entry = s.ledger c) :
    TokenInvariant (s.setLedger c entry) := by
  refine h.beside rfl rfl rfl fun d fp hs => ⟨hs.2.1, ?_⟩
  change _ ∨ update s.ledger c entry d = _
  by_cases hd : d = c
  · subst hd
    rw [update_self]
    rcases hc fp hs with hmarked | rfl
    · exact .inl hmarked
    · exact hs.2.2
  · rw [update_of_ne hd]
    exact hs.2.2

theorem setMembers (c) (count)
    (hc : ∀ fp, s.Settled c fp → count.unmarked = 0 ∧
      (count.marked = 0 ∨ s.ledger c = some .committing)) :
    TokenInvariant (s.setMembers c count) := by
  refine h.beside rfl rfl rfl fun d fp hs => ?_
  change (update s.members c count d).unmarked = 0 ∧ ((update s.members c count d).marked = 0 ∨ _)
  by_cases hd : d = c
  · subst hd
    rw [update_self]
    exact hc fp hs
  · rw [update_of_ne hd]
    exact hs.2

theorem dropToken : TokenInvariant { s with token := none } :=
  ⟨fun row hrow => (by cases hrow), h.commits, h.replays⟩

variable {c : Nat}

/-- A call goes on.  A reservation of its own stays with an undecided call, and a call that has
committed ends. -/
theorem goOn {call} (htoken : ∀ row, s.token = some row → row.owner = c →
      s.Settled c row.fingerprint ∨ call.undecided? = some row.fingerprint)
    (hcommits : ∀ fp, (c, fp) ∈ s.commits → call = .committing fp ∨ call = .ended)
    (hreplays : ∀ fp, call = .replayed fp → ∃ d, s.Settled d fp) :
    TokenInvariant (s.goOn c call) where
  token row hrow := by
    change s.Settled .. ∨ (update s.calls c call row.owner).undecided? = _
    by_cases howner : row.owner = c
    · rw [howner, update_self]
      exact htoken row hrow howner
    · rw [update_of_ne howner]
      exact h.token row hrow
  commits d fp hmem := by
    change update s.calls c call d = _ ∨ update s.calls c call d = _
    by_cases hd : d = c
    · subst hd
      rw [update_self]
      exact hcommits fp hmem
    · rw [update_of_ne hd]
      exact h.commits d fp hmem
  replays d fp hcall := by
    change update s.calls c call d = _ at hcall
    by_cases hd : d = c
    · rw [hd, update_self] at hcall
      exact hreplays fp hcall
    · rw [update_of_ne hd] at hcall
      exact h.replays d fp hcall

section

variable {old : TokenCall} (hcall : s.calls c = old)
  (hopen : old ≠ .ended ∧ ∀ fp, old ≠ .committing fp)
include hcall hopen

theorem not_mem_commits (fp) : (c, fp) ∉ s.commits := by
  intro hmem
  rcases h.commits c fp hmem with heq | heq
  · exact hopen.2 fp (hcall.symm.trans heq)
  · exact hopen.1 (hcall.symm.trans heq)

theorem advance {call} (hkeep : ∀ fp, old.undecided? = some fp → call.undecided? = some fp)
    (hreplays : ∀ fp, call = .replayed fp → ∃ d, s.Settled d fp) :
    TokenInvariant (s.goOn c call) := by
  refine h.goOn (fun row hrow howner => ?_)
    (fun fp hmem => absurd hmem (h.not_mem_commits hcall hopen fp)) hreplays
  rcases h.token row hrow with hmem | hundecided
  · exact .inl (howner ▸ hmem)
  · rw [howner, hcall] at hundecided
    exact .inr (hkeep _ hundecided)

theorem abandon (hfree : ∀ row, s.token = some row → row.owner ≠ c) :
    TokenInvariant (s.goOn c .ended) :=
  h.goOn (fun row hrow howner => absurd howner (hfree row hrow))
    (fun fp hmem => absurd hmem (h.not_mem_commits hcall hopen fp)) fun fp heq => by cases heq

end

theorem replay {row fp} (hrow : s.token = some row) (hsame : row.fingerprint = fp)
    (hdecided : (s.calls row.owner).undecided? = none) : ∃ d, s.Settled d fp := by
  rcases h.token row hrow with hmem | hundecided
  · exact ⟨row.owner, hsame ▸ hmem⟩
  · rw [hdecided] at hundecided
    cases hundecided

end TokenInvariant

theorem TokenStep.invariant {event s s'} (hstep : TokenStep event s s')
    (hguard : s.Undisturbed event) (h : TokenInvariant s) : TokenInvariant s' := by
  cases hstep with
  | start hcall | selectFails hcall | insertFails hcall | blobWritten hcall
  | selectAbsent hcall _ | insertRefused hcall _ | recheckAbsent hcall _
  | selectMismatch hcall _ _ | recheckMismatch hcall _ _
  | recheckFails hcall | prepareFails hcall =>
    exact h.advance hcall (by simp) (by simp [TokenCall.undecided?]) (by simp)
  | selectReplay hcall htoken hsame | recheckReplay hcall htoken hsame =>
    refine h.advance hcall (by simp) (by simp [TokenCall.undecided?]) fun fp heq => ?_
    cases heq
    exact h.replay htoken hsame hguard
  | @insertApplied _ c fp hcall htoken =>
    have hreserved : TokenInvariant { s with token := none } := h.dropToken
    refine ⟨fun row hrow => ?_, ?_, ?_⟩
    · cases hrow
      right
      change (update s.calls c _ c).undecided? = _
      rw [update_self]
      rfl
    · exact (hreserved.advance hcall (by simp) (by simp [TokenCall.undecided?]) (by simp)).commits
    · exact (hreserved.advance hcall (by simp) (by simp [TokenCall.undecided?]) (by simp)).replays
  | insertUnanswered _ _ => exact hguard.elim
  | @prepareSucceeds _ c fp marked unmarked hcall =>
    exact (h.setMembers c _ fun fp hs => absurd hs.1 (h.not_mem_commits hcall (by simp) fp)).advance
      hcall (by simp) (by simp [TokenCall.undecided?]) (by simp)
  | ledgerOpsFail hcall | blobFails hcall | stateFails hcall | releaseFails hcall =>
    exact h.abandon hcall (by simp) hguard
  | ledgerWritten hcall | rollbackEnds hcall _ =>
    exact (h.setLedger _ _ fun fp hs => absurd hs.1 (h.not_mem_commits hcall (by simp) fp)).advance
      hcall (by simp) (by simp [TokenCall.undecided?]) (by simp)
  | ledgerFails hcall _ | stateOrphaned hcall _ =>
    exact (h.setLedger _ _ fun fp hs => absurd hs.1 (h.not_mem_commits hcall (by simp) fp)).abandon
      hcall (by simp) hguard
  | @stateSet _ c fp next hcall hledger hnext =>
    have hgone := h.not_mem_commits hcall (by simp)
    have hkept {d fp'} (hs : s.Settled d fp') : ((s.commit c fp).goOn c next).Settled d fp' := by
      have hd : d ≠ c := fun hd => hgone fp' (hd ▸ hs.1)
      refine ⟨.tail _ hs.1, hs.2.1, ?_⟩
      change _ ∨ update s.ledger c _ d = _
      rw [update_of_ne hd]
      exact hs.2.2
    -- the reservation of the call, if it has one, now belongs to a commit
    refine ⟨fun row hrow => ?_, fun d fp' hmem => ?_, fun d fp' hreplayed => ?_⟩
    · rcases h.token row hrow with hs | hundecided
      · exact .inl (hkept hs)
      by_cases howner : row.owner = c
      · have hunmarked := hguard row hrow howner
        rw [howner, hcall] at hundecided
        cases hundecided
        left
        rw [howner]
        exact ⟨.head _, hunmarked, .inr (update_self ..)⟩
      · right
        change (update s.calls c next row.owner).undecided? = _
        rw [update_of_ne howner]
        exact hundecided
    · change update s.calls c next d = _ ∨ update s.calls c next d = _
      rcases List.mem_cons.mp hmem with heq | hmem
      · cases heq
        rw [update_self]
        exact hnext
      · have hd : d ≠ c := fun hd => hgone fp' (hd ▸ hmem)
        rw [update_of_ne hd]
        exact h.commits d fp' hmem
    · change update s.calls c next d = _ at hreplayed
      by_cases hd : d = c
      · rw [hd, update_self] at hreplayed
        rcases hnext with rfl | rfl <;> cases hreplayed
      · rw [update_of_ne hd] at hreplayed
        obtain ⟨e, he⟩ := h.replays d fp' hreplayed
        exact ⟨e, hkept he⟩
  | @commitEnds _ c fp entry hcall hentry =>
    have hledger := h.setLedger c entry fun _ _ => hentry.symm.imp (fun hdone => hdone.2.1) id
    refine hledger.goOn (fun row hrow howner => ?_) (fun _ _ => .inr rfl) (by simp)
    rcases hledger.token row hrow with hs | hundecided
    · exact .inl (howner ▸ hs)
    · change (s.calls row.owner).undecided? = _ at hundecided
      rw [howner, hcall] at hundecided
      cases hundecided
  | released hcall => exact h.dropToken.abandon hcall (by simp) fun row hrow => by cases hrow
  | memberApplied hcommits hledger hmarked =>
    exact h.setMembers _ _ fun fp hs => ⟨hs.2.1, .inr hledger⟩
  | recoveryCommits hledger hmarked => exact h.setLedger _ _ fun _ _ => .inl hmarked
  | recoveryReads => exact h.beside rfl rfl rfl fun _ _ hs => hs.2
  | recoveryUnmarks _ hmarked =>
    refine h.setMembers _ _ fun fp hs => ?_
    rcases hs.2.2 with hzero | hledger
    · cases hzero.symm.trans hmarked
    · exact absurd hledger hguard
  | recoveryCancels =>
    exact (h.setLedger _ _ fun fp hs => .inl (hs.2.2.resolve_right hguard)).beside rfl rfl rfl
      fun _ _ hs => hs.2
  | expires => exact h.dropToken

/-- Recovery alone brings a call that is secured to the end of its writes. -/
theorem TokenState.Settled.applied {s : TokenState} {c fp} (h : s.Settled c fp) :
    ∃ s', Relation.ReflTransGen (TokenStep .quiet) s s' ∧
      s'.members c = ⟨(s.members c).applied + (s.members c).marked, 0, 0⟩ := by
  obtain ⟨hcommits, hunmarked, hmarked⟩ := h
  generalize hcount : (s.members c).marked = marked at hmarked
  induction marked generalizing s with
  | zero =>
    refine ⟨s, .refl, ?_⟩
    rcases hmembers : s.members c with ⟨applied, marked, unmarked⟩
    rw [hmembers] at hunmarked hcount
    cases hunmarked
    cases hcount
    rfl
  | succ marked ih =>
    have hledger := hmarked.resolve_left (Nat.succ_ne_zero marked)
    have hstep := TokenStep.memberApplied hcommits hledger hcount
    have hself : (s.setMembers c ⟨(s.members c).applied + 1, marked, (s.members c).unmarked⟩).members
        c = ⟨(s.members c).applied + 1, marked, (s.members c).unmarked⟩ := Function.update_self ..
    obtain ⟨s', hrun, hmembers⟩ := ih (s := s.setMembers c _) hcommits (by rw [hself]; exact hunmarked)
      (by rw [hself]) (.inr hledger)
    refine ⟨s', .head hstep hrun, ?_⟩
    rw [hmembers, hself]
    exact congrArg (MemberCount.mk · 0 0) (Nat.add_right_comm _ 1 marked)

/-- In an undisturbed run a call is answered as a replay only of another call that has committed its
writes or left them to recovery, which then applies every one of them. -/
theorem replays_committed {s : TokenState} (h : TokenGuardedReachable s) :
    s.ReplaysCommitted ∧ ∀ c fp, s.Settled c fp →
      ∃ s', Relation.ReflTransGen (TokenStep .quiet) s s' ∧
        s'.members c = ⟨(s.members c).applied + (s.members c).marked, 0, 0⟩ := by
  have hinv : TokenInvariant s := by
    induction h with
    | refl => exact tokenInvariant_initial
    | tail _ hstep ih =>
      obtain ⟨event, hstep, hguard⟩ := hstep
      exact hstep.invariant hguard ih
  refine ⟨fun c fp hcall => ?_, fun c fp hs => hs.applied⟩
  obtain ⟨d, hs⟩ := hinv.replays c fp hcall
  refine ⟨d, fun hd => ?_, hs⟩
  rcases hinv.commits d fp hs.1 with heq | heq <;>
    · rw [hd, hcall] at heq
      cases heq

/-! ### Runs -/

def reservedToken : TokenState :=
  (TokenState.initial.reserve 0 "f").goOn 0 (.reserved "f")

theorem reservedToken_reachable : TokenGuardedReachable reservedToken := by
  obtain ⟨s, hrun, rfl⟩ : ∃ s, TokenGuardedReachable s ∧ s = reservedToken := by
    refine ⟨_, .head ⟨_, @TokenStep.start _ 0 "f" rfl, trivial⟩ <|
      .head ⟨_, .selectAbsent (c := 0) rfl rfl, trivial⟩ <|
      .single ⟨_, .insertApplied (c := 0) rfl rfl, trivial⟩, ?_⟩
    simp [reservedToken, TokenState.goOn, TokenState.reserve]
  exact hrun

/-- The first call has two members that write, sets its ledger entry to COMMITTING and applies one of
them; the second is answered as a replay. -/
theorem replays_committed_second :
    ∃ s, TokenGuardedReachable s ∧ s.calls 1 = .replayed "f" ∧ s.members 0 = ⟨1, 1, 0⟩ ∧
      s.ReplaysCommitted := by
  have hrun : TokenGuardedReachable _ := reservedToken_reachable.trans <|
    .head ⟨_, .ledgerWritten (c := 0) rfl, trivial⟩ <|
    .head ⟨_, @TokenStep.prepareSucceeds _ 0 "f" 2 0 rfl, trivial⟩ <|
    .head ⟨_, .blobWritten (c := 0) rfl, trivial⟩ <|
    .head ⟨_, .stateSet (c := 0) rfl rfl (.inl rfl), fun _ _ _ => rfl⟩ <|
    .head ⟨_, @TokenStep.memberApplied _ 0 "f" 1 (.head _) rfl rfl, trivial⟩ <|
    .head ⟨_, @TokenStep.start _ 1 "f" rfl, trivial⟩ <|
    .single ⟨_, .selectReplay (c := 1) rfl rfl rfl, rfl⟩
  exact ⟨_, hrun, rfl, rfl, (replays_committed hrun).1⟩

/-- The first call cannot write its ledger entry and keeps the token: its repetition is answered as
a replay, and no call has committed. -/
theorem replay_of_lost_transaction :
    ∃ s, TokenReachable s ∧ s.calls 1 = .replayed "f" ∧ s.ledger 0 = none ∧ s.commits = [] ∧
      ¬ s.ReplaysCommitted := by
  have hreserved : TokenReachable reservedToken :=
    .mono (fun _ _ ⟨event, hstep, _⟩ => ⟨event, hstep⟩) _ _ reservedToken_reachable
  have hrun : TokenReachable _ := hreserved.trans <|
    .head ⟨_, .ledgerFails (c := 0) rfl (.inl rfl)⟩ <|
    .head ⟨_, @TokenStep.start _ 1 "f" rfl⟩ <|
    .single ⟨_, .selectReplay (c := 1) rfl rfl rfl⟩
  refine ⟨_, hrun, rfl, rfl, rfl, fun hreplays => ?_⟩
  obtain ⟨d, -, hmem, -⟩ := hreplays 1 "f" rfl
  cases hmem

end ExtendDb.Cassandra
