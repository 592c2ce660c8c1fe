import ExtendDb.Cassandra.CommitPhase
import ExtendDb.Cassandra.Serializability
import ExtendDb.Cassandra.SingleItemWrites

/-!
# The processes of the system

Coordinators, recovery passes and single-item writes on the same rows, any of which may stop at any
statement, and what the commit of a transaction and its recovery issue.
-/

namespace ExtendDb.Cassandra

open Interaction Interaction.Program Fallible List History Statement

/-- A lightweight transaction on a base row was applied. -/
def Statement.applied : (s : Statement) → s.Answer → Bool
  | .lwt _ _ _, applied => applied
  | _, _ => false

theorem History.performed_exec {π : Type} (p) (s) (h : History π) :
    h.performed <+: (exec p s h).2.performed :=
  prefix_append _ _

variable {cfg : CassandraEngine}

/-! ## What commit and recovery issue -/

theorem readVersionByPk_outline (key) : (readVersionByPk key).Outline Neutral (fun _ => True) :=
  outline_bind (ask_outline ⟨trivial, trivial⟩) fun _ => trivial

theorem updatePartitionMaxDelete_neutral (timestamp) (part) :
    (updatePartitionMaxDelete timestamp part).Outline Neutral (fun _ => True) :=
  updatePartitionMaxDelete_outline (fun _ _ => ⟨trivial, trivial⟩) (fun _ _ => ⟨trivial, trivial⟩) _ _

theorem landedCommitVersion_outline (key) (timestamp) (item) :
    (landedCommitVersion key timestamp item).Outline Neutral (fun _ => True) := by
  refine outline_bind (ask_outline ⟨trivial, trivial⟩) ?_
  rintro (_ | row)
  · exact trivial
  dsimp only
  split
  · exact trivial
  · split <;> exact trivial

theorem recoverRollbackAll_outline {P txnId}
    (hplanted : ∀ key, P (.lwt key (.plantedBy txnId) .delete))
    (hclear : ∀ key, P (.lwt key (.preparedBy txnId) .clear)) (ops) :
    (recoverRollbackAll cfg txnId ops).Outline P (fun _ => True) := by
  induction ops with
  | nil => exact trivial
  | cons op ops ih =>
    refine outline_bind ?_ fun _ => ih
    refine outline_bind (lift_outline _).forget fun key => ?_
    refine outline_bind (ask_outline (hplanted key)) fun deleted => ?_
    split
    · exact trivial
    · exact outline_bind (ask_outline (hclear key)) fun _ => trivial

section

variable {txnId : Uuid} {timestamp : Int} {ε α : Type}

theorem owned_of_neutral {program : Session ε α} (h : program.Outline Neutral fun _ => True) :
    program.Outline (OwnedBy txnId) (fun _ => True) :=
  h.mono (fun _ hs => hs.ownedBy) fun _ => id

theorem fetchRow_owned (op key skip) :
    (fetchRowForTransaction cfg op key skip).Outline (OwnedBy txnId) (fun _ => True) :=
  fetchRowForTransaction_outline (fun _ => trivial) key skip

theorem commitLwt_owned {key mutation}
    (hs : (Statement.lwt key (.preparedBy txnId) mutation).OwnedBy txnId) :
    (commitLwt txnId key mutation).Outline (Statement.OwnedBy txnId) (fun _ => True) := by
  refine outline_bind (ask_outline hs) fun applied => ?_
  split <;> exact trivial

theorem commitConditionCheck_owned (op key) :
    (commitConditionCheck cfg txnId op key).Outline (OwnedBy txnId) (fun _ => True) := by
  refine outline_bind (lift_outline _).forget fun row => ?_
  exact outline_bind (ask_outline rfl) fun _ => trivial

theorem commitPutOrUpdate_owned (op item) (nextVersion) :
    (commitPutOrUpdate cfg txnId timestamp op item nextVersion).Outline (Statement.OwnedBy txnId)
      (fun _ => True) :=
  outline_bind (lift_outline _).forget fun _ => commitLwt_owned rfl

theorem commitSingleOperation_owned (op preparedItem) :
    (commitSingleOperation cfg txnId timestamp op preparedItem).Outline (Statement.OwnedBy txnId)
      (fun _ => True) := by
  unfold commitSingleOperation
  cases op.op with
  | put keyInfo item condition =>
    refine outline_bind (fetchRow_owned ..) fun row => ?_
    refine outline_bind (ask_outline trivial) fun now => ?_
    exact outline_bind (lift_outline _).forget fun _ => commitPutOrUpdate_owned ..
  | conditionCheck keyInfo key condition => exact commitConditionCheck_owned op key
  | delete keyInfo key condition =>
    refine outline_bind (fetchRow_owned ..) fun row => ?_
    refine outline_bind (ask_outline trivial) fun now => ?_
    refine outline_bind (lift_outline _).forget fun _ => ?_
    refine outline_bind (lift_outline _).forget fun key => ?_
    exact outline_bind (owned_of_neutral (updatePartitionMaxDelete_neutral _ _))
      fun _ => commitLwt_owned rfl
  | update keyInfo key actions maps condition =>
    cases preparedItem with
    | none => exact commitConditionCheck_owned op key
    | some item =>
      refine outline_bind (fetchRow_owned ..) fun row => ?_
      refine outline_bind (lift_outline _).forget fun finalItem => ?_
      refine outline_bind (ask_outline trivial) fun now => ?_
      exact outline_bind (lift_outline _).forget fun _ => commitPutOrUpdate_owned ..

theorem executeCommitPhase_owned (ops preparedItems) :
    (executeCommitPhase cfg txnId timestamp ops preparedItems).Outline (OwnedBy txnId)
      (fun _ => True) := by
  refine outline_bind (ask_outline rfl) fun _ => outline_bind ?_ fun _ => ask_outline rfl
  induction ops.zip preparedItems with
  | nil => exact trivial
  | cons member members ih => exact outline_bind (commitSingleOperation_owned ..) fun _ => ih

theorem recoverCommitOp_owned (op) :
    (recoverCommitOp cfg txnId timestamp op).Outline (OwnedBy txnId) (fun _ => True) := by
  have hitem (key : RowKey) : (recoverCommitItem txnId timestamp op key).Outline
      (OwnedBy txnId) (fun _ => True) := by
    unfold recoverCommitItem
    cases op.itemData with
    | none => exact trivial
    | some item =>
      refine outline_bind (owned_of_neutral (readVersionByPk_outline key)) fun version => ?_
      refine outline_bind (ask_outline trivial) fun now => ?_
      refine outline_bind (lift_outline _).forget fun next => ?_
      refine outline_bind (ask_outline rfl) fun applied => ?_
      split
      · exact trivial
      · exact owned_of_neutral (landedCommitVersion_outline _ _ _)
  refine outline_bind (lift_outline _).forget fun key => ?_
  split
  · exact outline_bind (ask_outline rfl) fun _ => trivial
  split
  · refine outline_bind (owned_of_neutral (readVersionByPk_outline key)) fun version => ?_
    refine outline_bind (ask_outline trivial) fun now => ?_
    refine outline_bind (lift_outline _).forget fun stamp => ?_
    refine outline_bind (owned_of_neutral (updatePartitionMaxDelete_neutral _ _)) fun _ => ?_
    exact outline_bind (ask_outline rfl) fun _ => trivial
  · exact hitem key

theorem recoverTransaction_owned (txnId) :
    (recoverTransaction cfg txnId).Outline (OwnedBy txnId) (fun _ => True) := by
  refine outline_bind (outline_bind (ask_outline trivial) ?_) ?_
  · rintro (_ | ⟨_ | state, _ | startedAt, _ | itemsBlob⟩) <;> exact trivial
  rintro (_ | entry)
  · exact trivial
  dsimp only
  split
  · refine outline_bind ?_ fun _ => ask_outline rfl
    induction entry.itemsBlob with
    | nil => exact trivial
    | cons op ops ih => exact outline_bind (recoverCommitOp_owned op) fun _ => ih
  · refine outline_bind ?_ fun _ => ask_outline rfl
    exact recoverRollbackAll_outline (fun _ => rfl) (fun _ => rfl) _

end

/-! ## The system -/

/-- What a process of the system runs. -/
inductive Role (cfg : CassandraEngine) where
  | transact (txn : Transaction cfg)
  | recover (txnId : Uuid)
  | putItem (tableId : String) (keyInfo : TableKeyInfo) (item : Item) (condition : Option Condition)
      (keyNotExists : Bool)
  | updateItem (tableId : String) (keyInfo : TableKeyInfo) (key : Item) (actions : List UpdateAction)
      (maps : ExpressionMaps) (condition : Option Condition)
  | deleteItem (tableId : String) (keyInfo : TableKeyInfo) (key : Item) (condition : Option Condition)

namespace Role

def program : Role cfg → Session WriteError Unit
  | transact txn => txn.program.mapError .transaction
  | recover txnId => (recoverTransaction cfg txnId).mapError .transaction
  | putItem tableId keyInfo item condition keyNotExists =>
    putItemImpl cfg tableId keyInfo item condition keyNotExists
  | updateItem tableId keyInfo key actions maps condition =>
    updateItemImpl cfg tableId keyInfo key actions maps condition
  | deleteItem tableId keyInfo key condition => deleteItemImpl cfg tableId keyInfo key condition

end Role

section

variable {ι : Type} (roles : ι → Role cfg)

/-- Every process is about to start on the database. -/
def begin (db : Database) : Config ι Statement.Answer WriteError Unit (History ι) :=
  ⟨fun i => .waiting (roles i).program, ⟨db, []⟩⟩

end

def putC : Transaction plainEngine where
  id := 2
  startedAt := 3000
  ops := [plainOp (.put plainTable (plainItem "c" "2") none)]
  idempotency := none
  nonempty := cons_ne_nil _ _
  addressed := by
    intro op hop
    rw [mem_singleton.mp hop]
    exact ⟨rowOf "c", rfl⟩
  distinct := nodup_singleton _
  keepsKey := by
    intro op hop keyInfo key actions maps condition heq
    rw [mem_singleton.mp hop] at heq
    cases heq

end ExtendDb.Cassandra
