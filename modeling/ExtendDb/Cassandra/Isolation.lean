import ExtendDb.Cassandra.SerialOrder

/-!
# Transactions under each other's eyes

The invariant that concurrent transactions keep together: what the rows stand for is the content
after the transactions that were set to COMMITTING, in that order.
-/

namespace ExtendDb.Cassandra

open Interaction Interaction.Program Fallible List History Database

/-! ## Ready transactions -/

def Row.image (row : Row) (txn : Uuid) : Option Item :=
  if row.Flagged ∧ row.PreparedBy txn then none else row.itemData

/-- The row carries the marker its member relies on.  A check relies on none, but a row it planted
must be recognisable as planted; so must one that an Update found absent. -/
def Fenced (op : TransactOp) (txn : Uuid) (row : Row) : Prop :=
  match op.op with
  | .conditionCheck _ _ _ => row.preparedTxnId = none ∨ row.PreparedBy txn ∧ row.Flagged
  | .update _ _ _ _ _ => row.PreparedBy txn ∧ row.itemData.isSome
  | _ => row.PreparedBy txn

/-- The row is still as PREPARE saw it: it holds the image `pre` that the member was evaluated on,
under the member's marker and with room for another version, and a Put that found no item has a
condition that accepts this. -/
structure MemberReady (cfg : CassandraEngine) (txn : Uuid) (op : TransactOp) (pre : Option Item)
    (key : RowKey) (row : Row) : Prop where
  image : row.image txn = pre
  fenced : Fenced op txn row
  stored : ∀ item, pre = some item → rowKey cfg op item = .ok key
  version : ¬ op.IsCheck → VersionFree row.version
  condition : pre = none → evalCondition op.condition none = .ok ()

variable {cfg : CassandraEngine}

def Transaction.RowReady (txn : Transaction cfg) (db : Database) (op : TransactOp)
    (pre : Option Item) : Prop :=
  ∀ key, rowKey cfg op op.key = .ok key → MemberReady cfg txn.id op pre key (db.rows key)

def Transaction.CommitReady (txn : Transaction cfg) (db : Database) : Prop :=
  ∀ itemsBlob, (db.ledger txn.id).itemsBlob = some itemsBlob →
    List.Forall₂ (fun op ledgerOp => txn.RowReady db op ledgerOp.preCommitItemData) txn.ops itemsBlob

def Transaction.Ready (txn : Transaction cfg) (s : Statement) (db : Database) : Prop :=
  match s with
  | .updateLedgerState _ .committing => txn.CommitReady db
  | .select key => (db.ledger txn.id).state = some .cancelling →
      (db.rows key).preparedTxnId = none ∨ (db.rows key).PreparedBy txn.id
  | _ => True

/-! ## The invariant -/

section

variable {ι π : Type} (txns : ι → Transaction cfg) (content₀ : Content)

/-- The rows stand for what the committed transactions leave when they run one after another from
`content₀`. -/
structure Consistent (h : History π) : Prop where
  flags : ∀ key, (h.db.rows key).Flagged → (h.db.rows key).preparedTxnId ≠ none
  nodup : h.committed.Nodup
  serial : ∃ order content, h.committed = order.map (fun i => (txns i).id) ∧
    runSerial txns order content₀ = some content ∧
    ∀ key, StandsFor txns h.committed key (h.db.rows key) (content key)

variable {txns content₀} {h : History π}

section

variable (hc : Consistent txns content₀ h)
include hc

theorem Consistent.not_flagged {key}
    (hrow : (h.db.rows key).preparedTxnId = none) : ¬ (h.db.rows key).Flagged :=
  fun hflag => hc.flags key hflag hrow

theorem Consistent.of_rows_eq (p) {s} (hs : s.NotCommitting)
    (hrows : (h.db.perform s).2.rows = h.db.rows) :
    Consistent txns content₀ (exec p s h).2 := by
  obtain ⟨hflags, hnodup, order, content, horder, hrun, hstands⟩ := hc
  have hcommitted := committed_exec hs p h
  refine ⟨?_, by rwa [hcommitted], order, content, by rwa [hcommitted], hrun, ?_⟩
  · rw [exec_db, hrows]
    exact hflags
  · rw [hcommitted, exec_db, hrows]
    exact hstands

theorem Consistent.lwt (p) {key guard mutation}
    (happly : guard.holds (h.db.rowExists key) (h.db.rows key) = true →
      ((mutation.apply (h.db.rows key)).Flagged →
        (mutation.apply (h.db.rows key)).preparedTxnId ≠ none) ∧
      ∀ image, StandsFor txns h.committed key (h.db.rows key) image →
        StandsFor txns h.committed key (mutation.apply (h.db.rows key)) image) :
    Consistent txns content₀ (exec p (.lwt key guard mutation) h).2 := by
  rcases h.db.perform_lwt key guard mutation with ⟨hguard, hperform⟩ | ⟨-, hperform⟩
  · obtain ⟨hflags, hnodup, order, content, horder, hrun, hstands⟩ := hc
    obtain ⟨hflag, himage⟩ := happly hguard
    have hcommitted := committed_exec_lwt p key guard mutation h
    refine ⟨fun key' => ?_, by rwa [hcommitted], order, content, by rwa [hcommitted], hrun,
      fun key' => ?_⟩ <;> rw [exec_db, hperform] <;> by_cases hkey : key' = key
    · subst hkey
      rw [rows_mutate_self]
      exact hflag
    · rw [rows_mutate_of_ne hkey]
      exact hflags key'
    · subst hkey
      rw [rows_mutate_self, hcommitted]
      exact himage _ (hstands key')
    · rw [rows_mutate_of_ne hkey, hcommitted]
      exact hstands key'
  · exact hc.of_rows_eq p trivial (by rw [hperform])

end

/-! ## Setting a transaction to COMMITTING -/

variable {row : Row}

theorem physical_eq_image {j} (h : row.preparedTxnId = none ∨ row.PreparedBy (txns j).id) :
    physical txns row = row.image (txns j).id := by
  rcases h with hnone | hrow
  · have hnot : ¬ row.PreparedBy (txns j).id := by
      rw [Row.PreparedBy, hnone]
      exact fun h => by cases h
    rw [physical_of_unprepared hnone, Row.image, if_neg fun h => hnot h.2]
  · by_cases hflag : row.Flagged
    · rw [physical_of_planted hflag hrow, Row.image, if_pos ⟨hflag, hrow⟩]
    · rw [physical_of_not_flagged hflag, Row.image, if_neg fun h => hflag h.1]

variable {op : TransactOp}

theorem Fenced.prepared {txn} (h : Fenced op txn row) :
    row.preparedTxnId = none ∨ row.PreparedBy txn := by
  cases hop : op.op <;> rw [Fenced, hop] at h
  case put => exact .inr h
  case delete => exact .inr h
  case update => exact .inr h.1
  case conditionCheck => exact h.imp_right And.left

theorem Fenced.preparedBy {txn} (h : Fenced op txn row) (hop : ¬ op.IsCheck) :
    row.PreparedBy txn := by
  cases heq : op.op <;> rw [Fenced, heq] at h <;> rw [TransactOp.IsCheck, heq] at hop
  case put => exact h
  case delete => exact h
  case update => exact h.1
  case conditionCheck => exact (hop trivial).elim

structure Runs (cfg : CassandraEngine) (op : TransactOp) (existing : Option Item) : Prop where
  condition : evalCondition op.condition existing = .ok ()
  image : ∃ image, memberImage cfg op existing = some image

theorem memberImage_of_isCheck (h : op.IsCheck) (existing) :
    memberImage cfg op existing = some existing := by
  cases hop : op.op <;> rw [TransactOp.IsCheck, hop] at h
  case conditionCheck => rw [memberImage, hop]
  all_goals exact h.elim

theorem Consistent.committing (hid : Function.Injective fun i => (txns i).id)
    (hc : Consistent txns content₀ h) (p) {j} (hj : (txns j).id ∉ h.committed)
    (hops : ∀ op ∈ (txns j).ops, ∀ key, rowKey cfg op op.key = .ok key →
      ∃ pre, MemberReady cfg (txns j).id op pre key (h.db.rows key) ∧ Runs cfg op pre) :
    Consistent txns content₀ (exec p (.updateLedgerState (txns j).id .committing) h).2 := by
  obtain ⟨hflags, hnodup, order, content, horder, hrun, hstands⟩ := hc
  have hcommitted := committed_exec_committing p (txns j).id h
  -- the rows of the members stand for the images that the members were evaluated on
  have hcontent : ∀ op ∈ (txns j).ops, ∀ key, rowKey cfg op op.key = .ok key →
      content key = physical txns (h.db.rows key) ∧ Runs cfg op (content key) := by
    intro op hop key hkey
    obtain ⟨pre, hready, hruns⟩ := hops op hop key hkey
    have hrow := hready.fenced.prepared
    have hnot : ∀ i op', ¬ Pending txns h.committed key (h.db.rows key) i op' :=
      hrow.elim not_pending_of_unprepared (not_pending_of_not_committed hj)
    have hphysical := (hstands key).settled hnot
    refine ⟨hphysical, ?_⟩
    rw [hphysical, physical_eq_image hrow, hready.image]
    exact hruns
  obtain ⟨content', hrun', hmembers, hrest⟩ := runMembers_eq_some (txns j).distinct
    (fun op hop => by
      obtain ⟨key, hkey⟩ := (txns j).addressed op hop
      obtain ⟨-, hcond, image, himage⟩ := hcontent op hop key hkey
      exact ⟨key, image, hkey, hcond, himage⟩)
  refine ⟨hflags, ?_, order ++ [j], content', ?_, ?_, fun key => ?_⟩
  · rw [hcommitted]
    exact nodup_append.mpr ⟨hnodup, nodup_singleton _,
      fun a ha b hb hab => hj (mem_singleton.mp hb ▸ hab ▸ ha)⟩
  · rw [hcommitted, horder, map_append]
    rfl
  · rw [runSerial_append, hrun, Option.bind_some, hrun']
  · rw [hcommitted]
    by_cases hkey : ∃ op ∈ (txns j).ops, rowKey cfg op op.key = .ok key
    · obtain ⟨op, hop, hkey⟩ := hkey
      obtain ⟨hphysical, -⟩ := hcontent op hop key hkey
      have himage := hmembers op hop key hkey
      rw [hphysical] at himage
      refine ⟨fun i op' hpending => ?_, fun hnot => ?_⟩
      · obtain ⟨pre, hready, -⟩ := hops op hop key hkey
        have hi : (txns i).id = (txns j).id := by
          rcases hready.fenced.prepared with hnone | hrow
          · exact absurd hpending (not_pending_of_unprepared hnone i op')
          · exact Option.some.inj (hpending.prepared.symm.trans hrow)
        obtain rfl : i = j := hid hi
        obtain rfl : op' = op := inj_on_of_nodup_map (txns i).distinct hpending.mem hop
          (hpending.key.trans hkey.symm)
        exact himage
      · obtain ⟨pre, hready, -⟩ := hops op hop key hkey
        have hcheck : op.IsCheck := by
          by_contra hop'
          exact hnot j op ⟨mem_append_right _ (mem_singleton_self _), hop, hkey,
            hready.fenced.preparedBy hop'⟩
        rw [memberImage_of_isCheck hcheck] at himage
        exact (Option.some.inj himage).symm
    · have hnone : ∀ op ∈ (txns j).ops, rowKey cfg op op.key ≠ .ok key := fun op hop heq =>
        hkey ⟨op, hop, heq⟩
      have hpending (i : ι) (op : TransactOp) :
          Pending txns (h.committed ++ [(txns j).id]) key (h.db.rows key) i op ↔
            Pending txns h.committed key (h.db.rows key) i op := by
        refine ⟨fun hp => ⟨?_, hp.mem, hp.key, hp.prepared⟩,
          fun hp => ⟨mem_append_left _ hp.committed, hp.mem, hp.key, hp.prepared⟩⟩
        rcases mem_append.mp hp.committed with hmem | hmem
        · exact hmem
        · obtain rfl : i = j := hid (mem_singleton.mp hmem)
          exact absurd hp.key (hnone op hp.mem)
      rw [hrest key hnone]
      exact ⟨fun i op hp => (hstands key).pending i op ((hpending i op).mp hp),
        fun hnot => (hstands key).settled fun i op hp => hnot i op ((hpending i op).mpr hp)⟩

end

end ExtendDb.Cassandra
