import ExtendDb.Cassandra.Isolation

/-!
# A coordinator among others

Every statement a coordinator issues keeps the invariant, provided its transaction is ready when it
is set to COMMITTING.  It relies on the others leaving the rows under its marker and its ledger entry
alone.
-/

namespace ExtendDb.Cassandra

open Interaction Interaction.Program Fallible History Database

/-! ## What a transaction relies on -/

section

variable {π : Type} {txn other : Uuid} {h h' h'' : History π}

/-- The rows under a transaction's marker, its ledger entry and whether it was set to COMMITTING are
as before. -/
structure Unaffected (txn : Uuid) (h h' : History π) : Prop where
  rows : ∀ key, (h.db.rows key).PreparedBy txn ∨ (h'.db.rows key).PreparedBy txn →
    h'.db.rows key = h.db.rows key
  ledger : h'.db.ledger txn = h.db.ledger txn
  committed : txn ∈ h'.committed ↔ txn ∈ h.committed

namespace Unaffected

theorem refl (h : History π) : Unaffected txn h h := ⟨fun _ _ => rfl, rfl, .rfl⟩

theorem trans (hr : Unaffected txn h h') (hr' : Unaffected txn h' h'') : Unaffected txn h h'' := by
  refine ⟨fun key hrow => ?_, hr'.ledger.trans hr.ledger, hr'.committed.trans hr.committed⟩
  rcases hrow with hrow | hrow
  · have heq := hr.rows key (.inl hrow)
    rw [hr'.rows key (.inl (heq ▸ hrow)), heq]
  · have heq := hr'.rows key (.inr hrow)
    rw [heq] at hrow ⊢
    exact hr.rows key (.inr hrow)

theorem prepared (hr : Unaffected txn h h') {key} (hrow : (h'.db.rows key).PreparedBy txn) :
    (h.db.rows key).PreparedBy txn :=
  hr.rows key (.inr hrow) ▸ hrow

end Unaffected

structure Statement.Neutral (s : Statement) : Prop where
  rows : s.KeepsRows
  ledger : s.KeepsLedger

variable {s : Statement}

theorem Statement.Neutral.notCommitting (hs : s.Neutral) : s.NotCommitting := by
  cases s with
  | updateLedgerState => exact hs.ledger.elim
  | _ => exact trivial

theorem Statement.Neutral.ownedBy (hs : s.Neutral) : s.OwnedBy txn := by
  cases s with
  | lwt => exact hs.rows.elim
  | insertLedger | updateLedgerState | updateLedgerBlob | deleteLedger => exact hs.ledger.elim
  | _ => exact trivial

theorem Statement.Neutral.unaffected (hs : s.Neutral) (p) : Unaffected txn h (exec p s h).2 :=
  ⟨fun _ _ => by rw [exec_db, rows_perform hs.rows], by rw [exec_db, ledger_perform hs.ledger],
    by rw [committed_exec hs.notCommitting]⟩

theorem Statement.OwnedBy.unaffected (hs : s.OwnedBy txn) (hne : other ≠ txn) (p) :
    Unaffected other h (exec p s h).2 :=
  ⟨fun _ hrow => hs.rows_eq hne hrow, hs.ledger_eq hne _, hs.mem_committed hne p h⟩

end

/-! ## The discipline -/

variable {cfg : CassandraEngine} {ι π : Type}

section

variable (txns : ι → Transaction cfg) (content₀ : Content) (p : π) (j : ι)

/-- Process `p` runs transaction `j`. -/
def coordinator : Discipline Statement (History π) where
  rely := Unaffected (txns j).id
  guarantee h h' := ∃ s, s.OwnedBy (txns j).id ∧ h' = (exec p s h).2
  admits s h := (txns j).Ready s h.db
  rely_refl := Unaffected.refl
  rely_trans := Unaffected.trans

abbrev Keeps {ε α : Type} (Q : Except ε α → History π → Prop) (program : Session ε α)
    (h : History π) : Prop :=
  program.Upholds (exec p) (Consistent txns content₀) (coordinator txns p j) Q h

variable {txns content₀ p j} {h : History π} {ε : Type} {failed : String → ε}

theorem keeps_ask {s Q} (hs : s.OwnedBy (txns j).id)
    (hstep : ∀ h₁, Unaffected (txns j).id h h₁ → Consistent txns content₀ h₁ →
      (txns j).Ready s h₁.db →
      Consistent txns content₀ (exec p s h₁).2 ∧
      ∀ h₂, Unaffected (txns j).id (exec p s h₁).2 h₂ → Consistent txns content₀ h₂ →
        Q (.ok (h₁.db.perform s).1) h₂) :
    Keeps txns content₀ p j Q (ask failed s) h := by
  intro h₁ hr hc hready
  obtain ⟨hc', hQ⟩ := hstep h₁ hr hc hready
  exact ⟨⟨s, hs, rfl⟩, hc', hQ⟩

theorem keeps_neutral {s Q} (hs : s.Neutral)
    (hQ : ∀ h₁ h₂, Unaffected (txns j).id h h₁ → Unaffected (txns j).id h₁ h₂ →
      (txns j).Ready s h₁.db → Q (.ok (h₁.db.perform s).1) h₂) :
    Keeps txns content₀ p j Q (ask failed s) h := by
  refine keeps_ask hs.ownedBy fun h₁ hr hc hready => ⟨?_, fun h₂ hr' _ => ?_⟩
  · exact hc.of_rows_eq p hs.notCommitting (rows_perform hs.rows _)
  · exact hQ h₁ h₂ hr ((hs.unaffected p).trans hr') hready

end

/-! ## PREPARE -/

section

variable {txns : ι → Transaction cfg} {content₀ : Content} {p : π} {j : ι} {h h' : History π}

/-- The transaction's markers are on rows of its members, and a row it planted holds the member's
key. -/
structure Preparing (txn : Transaction cfg) (h : History π) : Prop where
  notCommitted : txn.id ∉ h.committed
  rows : ∀ key, (h.db.rows key).PreparedBy txn.id → ∃ op ∈ txn.ops,
    rowKey cfg op op.key = .ok key ∧
      ((h.db.rows key).Flagged → (h.db.rows key).itemData = some op.key)

variable {txn : Transaction cfg}

theorem Preparing.stable (hp : Preparing txn h)
    (hr : Unaffected txn.id h h') : Preparing txn h' := by
  refine ⟨fun hmem => hp.notCommitted (hr.committed.mp hmem), fun key hrow => ?_⟩
  have hbefore := hp.rows key (hr.prepared hrow)
  rwa [← hr.rows key (.inr hrow)] at hbefore

theorem Preparing.lwt (hp : Preparing txn h) {op} (hop : op ∈ txn.ops) {key}
    (hkey : rowKey cfg op op.key = .ok key) {guard mutation}
    (hitem : guard.holds (h.db.rowExists key) (h.db.rows key) = true →
      (mutation.apply (h.db.rows key)).Flagged →
        (mutation.apply (h.db.rows key)).itemData = some op.key) :
    Preparing txn (exec p (.lwt key guard mutation) h).2 := by
  refine ⟨?_, fun key' hrow => ?_⟩
  · rw [committed_exec_lwt]
    exact hp.notCommitted
  rw [exec_db] at hrow ⊢
  rcases h.db.perform_lwt key guard mutation with ⟨hguard, hperform⟩ | ⟨-, hperform⟩ <;>
    rw [hperform] at hrow ⊢
  · by_cases heq : key' = key
    · subst heq
      rw [rows_mutate_self]
      exact ⟨op, hop, hkey, hitem hguard⟩
    · rw [rows_mutate_of_ne heq] at hrow ⊢
      exact hp.rows key' hrow
  · exact hp.rows key' hrow

theorem Preparing.step (hp : Preparing (txns j) h) (hc : Consistent txns content₀ h) {s}
    (hs : PreparesFor cfg (txns j).id (txns j).startedAt (txns j).ops s) :
    s.OwnedBy (txns j).id ∧ Consistent txns content₀ (exec p s h).2 ∧
      Preparing (txns j) (exec p s h).2 := by
  obtain ⟨op, hop, hs⟩ := hs
  cases hs with
  | select key =>
    have hneutral : (Statement.select key).Neutral := ⟨trivial, trivial⟩
    exact ⟨trivial, hc.of_rows_eq p trivial rfl, hp.stable (hneutral.unaffected p)⟩
  | selectMaxDelete part =>
    have hneutral : (Statement.selectMaxDelete part).Neutral := ⟨trivial, trivial⟩
    exact ⟨trivial, hc.of_rows_eq p trivial rfl, hp.stable (hneutral.unaffected p)⟩
  | @plant key hkey =>
    refine ⟨rfl, hc.lwt p fun hguard => ?_, hp.lwt hop hkey fun _ _ => rfl⟩
    rw [rows_eq_absent (Bool.not_eq_true' _ ▸ hguard)]
    refine ⟨(fun _ hnone => by cases hnone), fun image himage => ?_⟩
    exact himage.plant hp.notCommitted op.key _
  | @mark key hkey hcheck =>
    have hflag : (Guard.unprepared).holds (h.db.rowExists key) (h.db.rows key) = true →
        (h.db.rows key).preparedTxnId = none ∧ ¬ (h.db.rows key).Flagged := fun hguard =>
      have hnone := Option.isNone_iff_eq_none.mp hguard
      ⟨hnone, hc.not_flagged hnone⟩
    refine ⟨rfl, hc.lwt p (fun hguard => ⟨(fun _ hnone => by cases hnone), fun image himage => ?_⟩),
      hp.lwt hop hkey fun hguard hflagged => absurd hflagged (hflag hguard).2⟩
    exact himage.mark hp.notCommitted (hflag hguard).1 (hflag hguard).2 _

theorem executePreparePhase_keeps (hp : Preparing (txns j) h) : Keeps txns content₀ p j
      (fun result h' => (∀ computed, result = .ok computed →
        List.Forall₂ (Prepared cfg) (txns j).ops computed) ∧ Preparing (txns j) h')
      (executePreparePhase cfg (txns j).id (txns j).startedAt (txns j).ops) h := by
  refine .of_outline (executePreparePhase_outline _) (fun s h₁ hs hp₁ hc _ => ?_)
    (fun _ _ hr _ hp₁ => hp₁.stable hr) hp
  obtain ⟨howned, hc', hp'⟩ := hp₁.step hc hs
  exact ⟨⟨s, howned, rfl⟩, hc', hp'⟩

end

end ExtendDb.Cassandra
