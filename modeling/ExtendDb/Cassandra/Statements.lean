import ExtendDb.Cassandra.Transactions

/-!
# What statements do

Frame lemmas of the database, and the record of a run: the statements performed on a database, who
issued them and what they answered.
-/

namespace ExtendDb.Cassandra

open Interaction List Function Database

namespace Database

variable {db : Database} {key key' : RowKey} {guard : Guard} {mutation : Mutation}

@[simp]
theorem rows_mutate_self : (db.mutate key mutation).rows key = mutation.apply (db.rows key) :=
  update_self ..

theorem rows_mutate_of_ne (h : key' ≠ key) : (db.mutate key mutation).rows key' = db.rows key' :=
  update_of_ne h ..

variable {row : LedgerRow} {txn : Uuid}

@[simp]
theorem ledger_setLedger_self : (db.setLedger txn row).ledger txn = row :=
  update_self ..

theorem ledger_setLedger_of_ne {txn'} (h : txn' ≠ txn) :
    (db.setLedger txn row).ledger txn' = db.ledger txn' :=
  update_of_ne h ..

theorem perform_lwt (db : Database) (key guard mutation) :
    (guard.holds (db.rowExists key) (db.rows key) = true ∧
      db.perform (.lwt key guard mutation) = (true, db.mutate key mutation)) ∨
    (guard.holds (db.rowExists key) (db.rows key) = false ∧
      db.perform (.lwt key guard mutation) = (false, db)) := by
  rw [perform]
  cases guard.holds (db.rowExists key) (db.rows key)
  · exact .inr ⟨rfl, rfl⟩
  · exact .inl ⟨rfl, rfl⟩

theorem rows_perform_lwt_of_ne (h : key' ≠ key) :
    (db.perform (.lwt key guard mutation)).2.rows key' = db.rows key' := by
  rcases db.perform_lwt key guard mutation with ⟨-, hperform⟩ | ⟨-, hperform⟩
  · rw [hperform]
    exact rows_mutate_of_ne h
  · rw [hperform]

theorem rows_eq_absent (h : db.rowExists key = false) : db.rows key = .absent := by
  simp only [rowExists, Bool.or_eq_false_iff, decide_eq_false_iff_not, not_not] at h
  exact h.1

theorem perform_select (db : Database) (key) : (db.perform (.select key)).1 = some (db.rows key) ∨
      (db.perform (.select key)).1 = none ∧ db.rows key = .absent := by
  cases hexists : db.rowExists key with
  | true => exact .inl (if_pos hexists)
  | false => exact .inr ⟨if_neg (Bool.not_eq_true _ ▸ hexists), rows_eq_absent hexists⟩

theorem perform_select_of_prepared (h : (db.rows key).PreparedBy txn) :
    (db.perform (.select key)).1 = some (db.rows key) := by
  rcases db.perform_select key with hselect | ⟨-, habsent⟩
  · exact hselect
  · rw [habsent] at h
    cases h

end Database

def Statement.KeepsRows : Statement → Prop
  | .lwt _ _ _ => False
  | _ => True

def Statement.KeepsLedger : Statement → Prop
  | .insertLedger _ _ _ _ | .updateLedgerState _ _ | .updateLedgerBlob _ _ | .deleteLedger _ => False
  | _ => True

variable {s : Statement}

theorem Database.rows_perform (h : s.KeepsRows) (db : Database) :
    (db.perform s).2.rows = db.rows := by
  cases s with
  | lwt => exact h.elim
  | setMaxDelete | raiseMaxDelete | insertLedger | insertToken =>
    simp only [perform]
    split <;> rfl
  | _ => rfl

theorem Database.ledger_perform (h : s.KeepsLedger) (db : Database) :
    (db.perform s).2.ledger = db.ledger := by
  cases s with
  | insertLedger | updateLedgerState | updateLedgerBlob | deleteLedger => exact h.elim
  | lwt | setMaxDelete | raiseMaxDelete | insertToken =>
    simp only [perform]
    split <;> rfl
  | _ => rfl

/-! ## Records of runs -/

structure Event (π : Type) where
  process : π
  statement : Statement
  answer : statement.Answer

structure History (π : Type) where
  db : Database
  performed : List (Event π)

variable {π : Type}

namespace History

def exec (p : π) (s : Statement) (h : History π) : Except String s.Answer × History π :=
  (.ok (h.db.perform s).1, ⟨(h.db.perform s).2, h.performed ++ [⟨p, s, (h.db.perform s).1⟩]⟩)

@[simp]
theorem exec_fst (p) (s) (h : History π) : (exec p s h).1 = .ok (h.db.perform s).1 := rfl

@[simp]
theorem exec_db (p) (s) (h : History π) : (exec p s h).2.db = (h.db.perform s).2 := rfl

@[simp]
theorem exec_performed (p) (s) (h : History π) :
    (exec p s h).2.performed = h.performed ++ [⟨p, s, (h.db.perform s).1⟩] := rfl

end History

def Event.committing? {π : Type} (event : Event π) : Option Uuid :=
  match event.statement with
  | .updateLedgerState txn .committing => some txn
  | _ => none

/-- The transactions in the order in which they were set to COMMITTING. -/
def History.committed {π : Type} (h : History π) : List Uuid :=
  h.performed.filterMap Event.committing?

def Statement.NotCommitting : Statement → Prop
  | .updateLedgerState _ .committing => False
  | _ => True

theorem Event.committing?_eq_none {event : Event π}
    (h : event.statement.NotCommitting) : event.committing? = none := by
  unfold committing?
  split
  · rename_i heq
    rw [heq] at h
    exact h.elim
  · rfl

theorem History.committed_exec (hs : s.NotCommitting) (p) (h : History π) :
    (exec p s h).2.committed = h.committed := by
  have hnone : Event.committing? ⟨p, s, (h.db.perform s).1⟩ = none := Event.committing?_eq_none hs
  rw [committed, exec_performed, filterMap_append, filterMap_cons_none hnone,
    filterMap_nil, append_nil, committed]

@[simp]
theorem History.committed_exec_lwt (p) (key guard mutation) (h : History π) :
    (exec p (.lwt key guard mutation) h).2.committed = h.committed :=
  committed_exec (s := .lwt key guard mutation) trivial p h

theorem History.ledger_exec_lwt (p : π) (key guard mutation) (h : History π) :
    (exec p (.lwt key guard mutation) h).2.db.ledger = h.db.ledger :=
  ledger_perform (s := .lwt key guard mutation) trivial h.db

theorem History.committed_exec_committing (p) (txn) (h : History π) :
    (exec p (.updateLedgerState txn .committing) h).2.committed = h.committed ++ [txn] := by
  rw [committed, exec_performed, filterMap_append]
  rfl

/-! ## Statements of a transaction -/

/-- The statement changes rows only under the marker of `txn`, or places that marker on a row without
one, and changes no ledger entry but that of `txn`. -/
def Statement.OwnedBy (txn : Uuid) : Statement → Prop
  | .lwt _ .notExists (.plant _ t _) | .lwt _ .unprepared (.mark t _)
  | .lwt _ (.preparedBy t) (.commit _ _ _) | .lwt _ (.preparedBy t) .clear
  | .lwt _ (.preparedBy t) .delete | .lwt _ (.plantedBy t) .delete => t = txn
  | .lwt _ _ _ => False
  | .insertLedger t _ _ _ | .updateLedgerState t _ | .updateLedgerBlob t _ | .deleteLedger t => t = txn
  | _ => True

/-- An owned lightweight transaction finds the row unmarked or under its own marker, and leaves it
so. -/
theorem Statement.OwnedBy.lwt_prepared {txn} {db : Database} {key guard mutation}
    (h : (lwt key guard mutation).OwnedBy txn)
    (hguard : guard.holds (db.rowExists key) (db.rows key) = true) :
    ((db.rows key).preparedTxnId = none ∨ (db.rows key).PreparedBy txn) ∧
      ((mutation.apply (db.rows key)).preparedTxnId = none ∨
        (mutation.apply (db.rows key)).PreparedBy txn) := by
  cases guard <;> cases mutation <;> first | exact h.elim | skip
  case notExists.plant =>
    obtain rfl := h
    have habsent := rows_eq_absent (Bool.not_eq_true' _ ▸ hguard)
    exact ⟨.inl (by rw [habsent]; rfl), .inr rfl⟩
  case unprepared.mark =>
    obtain rfl := h
    exact ⟨.inl (Option.isNone_iff_eq_none.mp hguard), .inr rfl⟩
  case plantedBy.delete =>
    obtain rfl := h
    exact ⟨.inr (of_decide_eq_true (Bool.and_eq_true_iff.mp hguard).1), .inl rfl⟩
  all_goals
    obtain rfl := h
    exact ⟨.inr (of_decide_eq_true hguard), .inl rfl⟩

variable {txn other} (h : s.OwnedBy txn)
include h

theorem Statement.OwnedBy.rows_eq (hne : other ≠ txn) {db : Database} {key}
    (hrow : (db.rows key).PreparedBy other ∨ ((db.perform s).2.rows key).PreparedBy other) :
    (db.perform s).2.rows key = db.rows key := by
  cases s with
  | lwt key' guard mutation =>
    rcases db.perform_lwt key' guard mutation with ⟨hguard, hperform⟩ | ⟨-, hperform⟩
    · by_cases hkey : key = key'
      · subst hkey
        obtain ⟨hbefore, hafter⟩ := h.lwt_prepared hguard
        rw [hperform] at hrow
        simp only [rows_mutate_self] at hrow
        have hclash {row : Row} (hother : row.PreparedBy other)
            (hown : row.preparedTxnId = none ∨ row.PreparedBy txn) : False := by
          rcases hown with hnone | hown
          · exact Option.some_ne_none _ (hother.symm.trans hnone)
          · exact hne (Option.some.inj (hother.symm.trans hown))
        exact (hrow.elim (hclash · hbefore) (hclash · hafter)).elim
      · rw [hperform]
        exact rows_mutate_of_ne hkey
    · rw [hperform]
  | _ =>
    refine congrFun (rows_perform ?_ db) key
    exact trivial

theorem Statement.OwnedBy.ledger_eq (hne : other ≠ txn)
    (db : Database) : (db.perform s).2.ledger other = db.ledger other := by
  cases s with
  | insertLedger t state startedAt itemsBlob =>
    obtain rfl : t = txn := h
    simp only [perform]
    split
    · exact ledger_setLedger_of_ne hne
    · rfl
  | updateLedgerState t state | updateLedgerBlob t itemsBlob | deleteLedger t =>
    obtain rfl : t = txn := h
    exact ledger_setLedger_of_ne hne
  | _ =>
    refine congrFun (ledger_perform ?_ db) other
    exact trivial

theorem Statement.OwnedBy.mem_committed (hne : other ≠ txn) (p) (hist : History π) :
    other ∈ (History.exec p s hist).2.committed ↔ other ∈ hist.committed := by
  by_cases hs : s.NotCommitting
  · rw [History.committed_exec hs]
  cases s with
  | updateLedgerState t state =>
    cases state with
    | committing =>
      obtain rfl : t = txn := h
      rw [History.committed_exec_committing, mem_append, mem_singleton]
      exact or_iff_left hne
    | _ => exact (hs trivial).elim
  | _ => exact (hs trivial).elim

end ExtendDb.Cassandra
