import ExtendDb.Cassandra.CommitPhase

/-!
# ROLLBACK among other transactions

Unless it meets a row that another transaction has marked, a rollback removes every row it planted
and leaves the items of the others as they were.
-/

namespace ExtendDb.Cassandra

open Interaction Interaction.Program Fallible History Database

section

variable {cfg : CassandraEngine} {ι π : Type} {txns : ι → Transaction cfg} {content₀ : Content}
  {p : π} {j : ι} {h h' : History π}

/-- What the rollback has left to do: the planted rows that remain are rows of the members that
remain. -/
structure Undoing (txn : Transaction cfg) (ops : List TransactOp) (h : History π) : Prop where
  notCommitted : txn.id ∉ h.committed
  cancelling : (h.db.ledger txn.id).state = some .cancelling
  rows : ∀ key, (h.db.rows key).PreparedBy txn.id → (h.db.rows key).Flagged →
    (h.db.rows key).itemData.isSome ∧ ∃ op ∈ ops, rowKey cfg op op.key = .ok key

variable {txn : Transaction cfg} {op : TransactOp} {ops : List TransactOp} {key : RowKey}

theorem Undoing.stable (hu : Undoing txn ops h) (hr : Unaffected txn.id h h') :
    Undoing txn ops h' := by
  refine ⟨fun hmem => hu.notCommitted (hr.committed.mp hmem), ?_, fun key hrow hflag => ?_⟩
  · rw [hr.ledger]
    exact hu.cancelling
  · have heq := hr.rows key (.inr hrow)
    rw [heq] at hrow hflag ⊢
    exact hu.rows key hrow hflag

theorem Undoing.done (hu : Undoing txn (op :: ops) h) (hkey : rowKey cfg op op.key = .ok key)
    (hcommitted : h'.committed = h.committed) (hledger : h'.db.ledger = h.db.ledger)
    (hothers : ∀ key', key' ≠ key → h'.db.rows key' = h.db.rows key')
    (hrow : (h'.db.rows key).PreparedBy txn.id → ¬ (h'.db.rows key).Flagged) :
    Undoing txn ops h' := by
  refine ⟨hcommitted ▸ hu.notCommitted, hledger ▸ hu.cancelling, fun key' hrow' hflag => ?_⟩
  have hne : key' ≠ key := by
    rintro rfl
    exact hrow hrow' hflag
  rw [hothers key' hne] at hrow' hflag ⊢
  obtain ⟨hitem, op', hmem, hkey'⟩ := hu.rows key' hrow' hflag
  rcases List.mem_cons.mp hmem with rfl | hmem
  · exact absurd (Except.ok.inj (hkey'.symm.trans hkey)) hne
  · exact ⟨hitem, op', hmem, hkey'⟩

/-- The transaction reads a row that nobody else has marked.  A row without an item is not a planted
one. -/
theorem fetchItemForTransaction_keeps (hu : Undoing (txns j) (op :: ops) h)
    (hkey : rowKey cfg op op.key = .ok key) :
    Keeps txns content₀ p j
      (fun result h' => Undoing (txns j) (op :: ops) h' ∧ ∃ item, result = .ok item ∧
        (item = none → (h'.db.rows key).PreparedBy (txns j).id → ¬ (h'.db.rows key).Flagged))
      (fetchItemForTransaction cfg op op.key (some (txns j).id)) h := by
  rw [fetchItemForTransaction, fetchRowForTransaction, hkey, lift_ok_bind]
  have hselect : Keeps txns content₀ p j
      (fun result h' => Undoing (txns j) (op :: ops) h' ∧ ∃ found, result = .ok found ∧
        (found = none → ¬ (h'.db.rows key).PreparedBy (txns j).id) ∧
        ∀ row ∈ found, (row.preparedTxnId = none ∨ row.PreparedBy (txns j).id) ∧
          ((h'.db.rows key).PreparedBy (txns j).id → row = h'.db.rows key))
      (selectRow key) h := by
    refine keeps_neutral ⟨trivial, trivial⟩ fun h₁ h₂ hr hr' hready =>
      ⟨hu.stable (hr.trans hr'), _, rfl, ?_⟩
    rcases h₁.db.perform_select key with hfound | ⟨hfound, habsent⟩ <;> rw [hfound]
    · refine ⟨(fun hnone => by cases hnone), ?_⟩
      rintro _ ⟨⟩
      exact ⟨hready (hu.stable hr).cancelling, fun hrow => (hr'.rows key (.inr hrow)).symm⟩
    refine ⟨fun _ hrow => ?_, (fun _ hrow => by cases hrow)⟩
    have hbefore := hr'.prepared hrow
    rw [habsent] at hbefore
    cases hbefore
  refine .bind (.bind hselect ?_ ?_) ?_ ?_ (Q := fun result h' =>
    Undoing (txns j) (op :: ops) h' ∧ ∃ row, result = .ok row ∧
      (row.item = none → (h'.db.rows key).PreparedBy (txns j).id → ¬ (h'.db.rows key).Flagged))
  · rintro found h₁ - ⟨hu₁, _, ⟨⟩, habsent, hfound⟩
    cases found with
    | none =>
      exact fun h₂ hr _ =>
        ⟨hu₁.stable hr, _, rfl, fun _ hrow => absurd (hr.prepared hrow) (habsent rfl)⟩
    | some row =>
      obtain ⟨hown, hrow⟩ := hfound row rfl
      have hskip : (row.preparedTxnId.isSome && row.preparedTxnId != some (txns j).id) = false := by
        rcases hown with hnone | hown
        · rw [hnone]
          rfl
        · rw [show row.preparedTxnId = some (txns j).id from hown]
          simp
      simp only [hskip]
      refine fun h₂ hr _ => ⟨hu₁.stable hr, _, rfl, fun hnone hrow' hflag => ?_⟩
      have heq := hr.rows key (.inr hrow')
      rw [heq] at hrow' hflag
      rw [hrow hrow'] at hnone
      have hsome := (hu₁.rows key hrow' hflag).1
      rw [show (h₁.db.rows key).itemData = none from hnone] at hsome
      cases hsome
  · rintro _ _ - ⟨-, _, ⟨⟩, -⟩
  · rintro row h₁ - ⟨hu₁, _, ⟨⟩, hitem⟩
    refine fun h₂ hr _ => ⟨hu₁.stable hr, _, rfl, fun hnone hrow => ?_⟩
    have heq := hr.rows key (.inr hrow)
    rw [heq] at hrow ⊢
    exact hitem hnone hrow
  · rintro _ _ - ⟨-, _, ⟨⟩, -⟩

theorem deletePlanted_keeps (hu : Undoing (txns j) (op :: ops) h)
    (hkey : rowKey cfg op op.key = .ok key) :
    Keeps txns content₀ p j
      (fun result h' => (∃ deleted, result = .ok deleted) ∧ Undoing (txns j) ops h' ∧
        ((h'.db.rows key).PreparedBy (txns j).id → ¬ (h'.db.rows key).Flagged))
      (lwt databaseError key (.plantedBy (txns j).id) .delete) h := by
  refine keeps_ask rfl fun h₁ hr hc _ => ⟨hc.lwt p fun hguard => ?_, fun h₂ hr' _ => ?_⟩
  · obtain ⟨hprepared, hflag⟩ := Bool.and_eq_true_iff.mp hguard
    refine ⟨(fun hflagged => by cases hflagged), fun image hstands => ?_⟩
    exact hstands.deletePlanted (of_decide_eq_true hprepared) (of_decide_eq_true hflag)
      fun hmem => absurd hmem (hu.stable hr).notCommitted
  · have hrow : let row := (exec p (.lwt key (.plantedBy (txns j).id) .delete) h₁).2.db.rows key
        row.PreparedBy (txns j).id → ¬ row.Flagged := by
      dsimp only
      rw [exec_db]
      rcases h₁.db.perform_lwt key (.plantedBy (txns j).id) .delete with
        ⟨-, hperform⟩ | ⟨hguard, hperform⟩ <;> rw [hperform]
      · rw [rows_mutate_self]
        rintro ⟨⟩
      · intro hprepared hflag
        rw [Guard.holds, decide_eq_true hprepared, decide_eq_true hflag] at hguard
        cases hguard
    refine ⟨⟨_, rfl⟩, .stable ((hu.stable hr).done hkey (committed_exec_lwt ..)
      (ledger_exec_lwt ..) (fun _ => rows_perform_lwt_of_ne) hrow) hr', ?_⟩
    intro hprepared
    have heq := hr'.rows key (.inr hprepared)
    rw [heq] at hprepared ⊢
    exact hrow hprepared

theorem clearMarker_keeps (hu : Undoing (txns j) ops h)
    (hrow : (h.db.rows key).PreparedBy (txns j).id → ¬ (h.db.rows key).Flagged) :
    Keeps txns content₀ p j
      (fun result h' => (∃ cleared, result = .ok cleared) ∧ Undoing (txns j) ops h')
      (lwt databaseError key (.preparedBy (txns j).id) .clear) h := by
  refine keeps_ask rfl fun h₁ hr hc _ => ?_
  have hrow₁ : (h₁.db.rows key).PreparedBy (txns j).id → ¬ (h₁.db.rows key).Flagged := by
    intro hprepared
    have heq := hr.rows key (.inr hprepared)
    rw [heq] at hprepared ⊢
    exact hrow hprepared
  have hu₁ := hu.stable hr
  refine ⟨hc.lwt p fun hguard => ?_, fun h₂ hr' _ => ⟨⟨_, rfl⟩, .stable ?_ hr'⟩⟩
  · have hprepared := of_decide_eq_true hguard
    exact ⟨fun hflag => absurd hflag (hrow₁ hprepared),
      fun image hstands => hstands.clear hu₁.notCommitted hprepared (hrow₁ hprepared)⟩
  refine ⟨?_, ?_, fun key' hprepared hflag => ?_⟩
  · rw [committed_exec_lwt]
    exact hu₁.notCommitted
  · rw [ledger_exec_lwt]
    exact hu₁.cancelling
  · rw [exec_db] at hprepared hflag ⊢
    rcases h₁.db.perform_lwt key (.preparedBy (txns j).id) .clear with
      ⟨-, hperform⟩ | ⟨-, hperform⟩ <;> rw [hperform] at hprepared hflag ⊢
    · by_cases hkey : key' = key
      · subst hkey
        rw [rows_mutate_self] at hprepared
        cases hprepared
      · rw [rows_mutate_of_ne hkey] at hprepared hflag ⊢
        exact hu₁.rows key' hprepared hflag
    · exact hu₁.rows key' hprepared hflag

theorem rollbackSingleOperation_keeps (hu : Undoing (txns j) (op :: ops) h)
    (hkey : rowKey cfg op op.key = .ok key) :
    Keeps txns content₀ p j (fun result h' => result = .ok () ∧ Undoing (txns j) ops h')
      (rollbackSingleOperation cfg (txns j).id op) h := by
  refine .bind (fetchItemForTransaction_keeps hu hkey) ?_ ?_
  · rintro item h₁ - ⟨hu₁, _, ⟨⟩, hitem⟩
    cases item with
    | none =>
      exact fun h₂ hr _ => ⟨rfl, .stable (hu₁.done hkey rfl rfl (fun _ _ => rfl) (hitem rfl)) hr⟩
    | some existing =>
      rw [hkey, lift_ok_bind]
      refine .bind (deletePlanted_keeps hu₁ hkey) ?_ ?_
      · rintro deleted h₂ - ⟨⟨_, ⟨⟩⟩, hu₂, hrow⟩
        split
        · exact fun h₃ hr _ => ⟨rfl, hu₂.stable hr⟩
        · exact .bind (clearMarker_keeps hu₂ hrow)
            (fun _ h₃ _ hu₃ h₄ hr _ => ⟨rfl, hu₃.2.stable hr⟩)
            (by rintro _ _ - ⟨⟨_, ⟨⟩⟩, -⟩)
      · rintro _ _ - ⟨⟨_, ⟨⟩⟩, -⟩
  · rintro _ _ - ⟨-, _, ⟨⟩, -⟩

theorem rollbackAll_keeps (hu : Undoing (txns j) ops h) (hops : ∀ op ∈ ops, op ∈ (txns j).ops) :
    Keeps txns content₀ p j (fun result h' => result = .ok () ∧ Undoing (txns j) [] h')
      (rollbackAll cfg (txns j).id ops) h := by
  induction ops generalizing h with
  | nil => exact fun h' hr _ => ⟨rfl, hu.stable hr⟩
  | cons op ops ih =>
    obtain ⟨key, hkey⟩ := (txns j).addressed op (hops op (.head _))
    refine .bind (rollbackSingleOperation_keeps hu hkey) ?_ ?_
    · rintro _ h₁ - ⟨-, hu₁⟩
      exact ih hu₁ fun op hop => hops op (.tail _ hop)
    · rintro _ _ - ⟨⟨⟩, -⟩

end

end ExtendDb.Cassandra
