import ExtendDb.Cassandra.PrepareOutline
import ExtendDb.Engine.StoredNumbers

/-!
# Serial runs of transactions

What a list of transactions does to the content of the tables when they run one after another, and
the content that the rows of a database stand for while transactions are committing.
-/

namespace ExtendDb.Cassandra

open Interaction Fallible List Function Option

abbrev Content := RowKey → Option Item

def Database.content (db : Database) : Content := fun key => (db.rows key).itemData

def TransactOp.condition (op : TransactOp) : Option Condition :=
  match op.op with
  | .put _ _ condition | .delete _ _ condition | .update _ _ _ _ condition => condition
  | .conditionCheck _ _ condition => some condition

variable {op : TransactOp}

section

variable (cfg : CassandraEngine)

def memberImage (op : TransactOp) (existing : Option Item) : Option (Option Item) :=
  match op.op with
  | .put _ item _ => some (some item)
  | .delete _ _ _ => some none
  | .conditionCheck _ _ _ => some existing
  | .update _ key actions maps _ =>
    match applyUpdate cfg.bigDecimal maps actions (existing.getD key) with
    | .ok item => some (if existing.isNone && removesOnly actions then none else some item)
    | .error _ => none

def runMember (op : TransactOp) (content : Content) : Option Content :=
  match rowKey cfg op op.key with
  | .error _ => none
  | .ok key =>
    match evalCondition op.condition (content key) with
    | .error _ => none
    | .ok () => (memberImage cfg op (content key)).map (update content key)

def runMembers : List TransactOp → Content → Option Content
  | [], content => some content
  | op :: ops, content => (runMember cfg op content).bind (runMembers ops)

/-- A transaction as the engine hands it to the backend: it has members, every member's key
addresses a row, no two members address the same row, and an update leaves the key attributes
alone. -/
structure Transaction where
  id : Uuid
  startedAt : Int
  ops : List TransactOp
  idempotency : Option Idempotency
  nonempty : ops ≠ []
  addressed : ∀ op ∈ ops, ∃ key, rowKey cfg op op.key = .ok key
  distinct : (ops.map fun op => rowKey cfg op op.key).Nodup
  keepsKey : ∀ op ∈ ops, ∀ keyInfo key actions maps condition,
    op.op = .update keyInfo key actions maps condition →
    validateNoKeyUpdates actions keyInfo maps = .ok ()

variable {cfg}

def runSerial {ι : Type} (txns : ι → Transaction cfg) : List ι → Content → Option Content
  | [], content => some content
  | i :: order, content => (runMembers cfg (txns i).ops content).bind (runSerial txns order)

theorem runSerial_append {ι : Type} (txns : ι → Transaction cfg) (order) (i) (content) :
    runSerial txns (order ++ [i]) content =
      (runSerial txns order content).bind (runMembers cfg (txns i).ops) := by
  induction order generalizing content with
  | nil => exact bind_fun_some _
  | cons j order ih =>
    change (runMembers cfg (txns j).ops content).bind (runSerial txns (order ++ [i])) = _
    rw [funext ih]
    exact (bind_assoc ..).symm

theorem runMembers_eq_some {ops content}
    (hdistinct : (ops.map fun op => rowKey cfg op op.key).Nodup)
    (hops : ∀ op ∈ ops, ∃ key image, rowKey cfg op op.key = .ok key ∧
      evalCondition op.condition (content key) = .ok () ∧
      memberImage cfg op (content key) = some image) :
    ∃ content', runMembers cfg ops content = some content' ∧
      (∀ op ∈ ops, ∀ key, rowKey cfg op op.key = .ok key →
        memberImage cfg op (content key) = some (content' key)) ∧
      ∀ key, (∀ op ∈ ops, rowKey cfg op op.key ≠ .ok key) → content' key = content key := by
  induction ops generalizing content with
  | nil => exact ⟨content, rfl, by simp, fun _ _ => rfl⟩
  | cons op ops ih =>
    obtain ⟨key, image, hkey, hcond, himage⟩ := hops op (.head _)
    obtain ⟨hnotMem, hnodup⟩ := nodup_cons.mp hdistinct
    have hother : ∀ other ∈ ops, rowKey cfg other other.key ≠ .ok key := fun other hmem heq =>
      hnotMem (mem_map.mpr ⟨other, hmem, heq.trans hkey.symm⟩)
    have hne : ∀ other ∈ ops, ∀ key', rowKey cfg other other.key = .ok key' → key' ≠ key := by
      rintro other hmem key' hkey' rfl
      exact hother other hmem hkey'
    have hops' : ∀ other ∈ ops, ∃ key' image', rowKey cfg other other.key = .ok key' ∧
        evalCondition other.condition (update content key image key') = .ok () ∧
        memberImage cfg other (update content key image key') = some image' := by
      intro other hmem
      obtain ⟨key', image', hkey', hcond', himage'⟩ := hops other (.tail _ hmem)
      refine ⟨key', image', hkey', ?_⟩
      rw [update_of_ne (hne other hmem key' hkey')]
      exact ⟨hcond', himage'⟩
    obtain ⟨content', hrun, hmembers, hrest⟩ := ih hnodup hops'
    refine ⟨content', ?_, ?_, ?_⟩
    · have hmember : runMember cfg op content = some (update content key image) := by
        simp [runMember, hkey, hcond, himage]
      rw [runMembers, hmember, bind_some, hrun]
    · intro other hmem key' hkey'
      rcases mem_cons.mp hmem with rfl | hmem
      · obtain rfl : key = key' := Except.ok.inj (hkey.symm.trans hkey')
        rw [hrest key hother, update_self]
        exact himage
      · have himage' := hmembers other hmem key' hkey'
        rwa [update_of_ne (hne other hmem key' hkey')] at himage'
    · intro key' hkey'
      have hne' : key' ≠ key := by
        rintro rfl
        exact hkey' op (.head _) hkey
      rw [hrest key' fun other hmem => hkey' other (.tail _ hmem), update_of_ne hne']

/-! ## Updates and keys -/

theorem rowKey_congr {a b : Item}
    (h : ∀ name ∈ op.keyInfo.keySchema.map (·.attributeName), OrdMap.get? a name = OrdMap.get? b name) :
    rowKey cfg op a = rowKey cfg op b := by
  have hname {ks : KeySchemaElement} (hks : ks ∈ op.keyInfo.keySchema) :
      OrdMap.get? a ks.attributeName = OrdMap.get? b ks.attributeName :=
    h _ (mem_map.mpr ⟨ks, hks, rfl⟩)
  have hpart {missing : String} {ks : KeySchemaElement}
      (hks : ks ∈ hashKeyElements op.keyInfo.keySchema) :
      hashPart cfg.base64 a missing ks = hashPart cfg.base64 b missing ks := by
    rw [hashPart, hashPart, hname (mem_of_mem_filter hks)]
  have hpk : compositePkToText cfg.base64 a op.keyInfo.keySchema =
      compositePkToText cfg.base64 b op.keyInfo.keySchema := by
    unfold compositePkToText
    split
    · rename_i ks hks
      exact hpart (hks ▸ mem_singleton_self ks)
    · exact congrArg (· >>= _) (mapM_congr fun ks hks => hpart hks)
  unfold rowKey rowKeyOr
  rw [hpk]
  cases hsk : skInfo op.keyInfo.keySchema op.keyInfo.attributeDefinitions with
  | none => rfl
  | some sk =>
    obtain ⟨element, helement, hty⟩ := bind_eq_some_iff.mp hsk
    obtain ⟨ty, -, hsk⟩ := bind_eq_some_iff.mp hty
    cases hsk
    simp [hname (mem_of_find?_eq_some helement)]

theorem rowKey_applyUpdate {keyInfo key actions maps condition item item'}
    (hop : op.op = .update keyInfo key actions maps condition)
    (hactions : validateNoKeyUpdates actions keyInfo maps = .ok ())
    (h : applyUpdate cfg.bigDecimal maps actions item = .ok item') :
    rowKey cfg op item' = rowKey cfg op item := by
  refine rowKey_congr fun name hname => ?_
  have hinfo : op.keyInfo = keyInfo := by rw [TransactOp.keyInfo, hop]; rfl
  rw [hinfo] at hname
  exact applyUpdate_get? (validateNoKeyUpdates_avoids hactions hname) h

end

/-! ## What rows stand for -/

section

variable {cfg : CassandraEngine} {ι : Type} (txns : ι → Transaction cfg)

open Classical in
noncomputable def physical (row : Row) : Option Item :=
  if row.Flagged ∧ ∃ i, row.PreparedBy (txns i).id then none else row.itemData

structure Pending (committed : List Uuid) (key : RowKey) (row : Row) (i : ι) (op : TransactOp) :
    Prop where
  committed : (txns i).id ∈ committed
  mem : op ∈ (txns i).ops
  key : rowKey cfg op op.key = .ok key
  prepared : row.PreparedBy (txns i).id

structure StandsFor (committed : List Uuid) (key : RowKey) (row : Row)
  (image : Option Item) : Prop where
  pending : ∀ i op, Pending txns committed key row i op →
    memberImage cfg op (physical txns row) = some image
  settled : (∀ i op, ¬ Pending txns committed key row i op) → image = physical txns row

variable {txns} {committed : List Uuid} {key : RowKey} {row : Row} {image : Option Item} {j : ι}

theorem physical_of_unprepared (h : row.preparedTxnId = none) :
    physical txns row = row.itemData := by
  refine if_neg fun hplanted => ?_
  obtain ⟨-, i, hi⟩ := hplanted
  rw [Row.PreparedBy, h] at hi
  cases hi

theorem physical_of_not_flagged (h : ¬ row.Flagged) : physical txns row = row.itemData :=
  if_neg fun hplanted => h hplanted.1

theorem physical_of_planted (hflag : row.Flagged) (hrow : row.PreparedBy (txns j).id) :
    physical txns row = none :=
  if_pos ⟨hflag, j, hrow⟩

theorem not_pending_of_unprepared (h : row.preparedTxnId = none) (i) (op) :
    ¬ Pending txns committed key row i op := by
  intro hpending
  have hrow := hpending.prepared
  rw [Row.PreparedBy, h] at hrow
  cases hrow

theorem not_pending_of_not_committed (hj : (txns j).id ∉ committed)
    (hrow : row.PreparedBy (txns j).id) (i) (op) :
    ¬ Pending txns committed key row i op := by
  intro hpending
  have heq : (txns i).id = (txns j).id := some.inj (hpending.prepared.symm.trans hrow)
  exact hj (heq ▸ hpending.committed)

theorem standsFor_iff_of_not_pending (h : ∀ i op, ¬ Pending txns committed key row i op) :
    StandsFor txns committed key row image ↔ image = physical txns row :=
  ⟨fun hstands => hstands.settled h, fun heq => ⟨fun i op hp => absurd hp (h i op), fun _ => heq⟩⟩

theorem standsFor_iff_of_unprepared (h : row.preparedTxnId = none) :
    StandsFor txns committed key row image ↔ image = row.itemData := by
  rw [standsFor_iff_of_not_pending (not_pending_of_unprepared h), physical_of_unprepared h]

section

variable (hj : (txns j).id ∉ committed)
include hj

theorem StandsFor.plant (h : StandsFor txns committed key .absent image) (item) (timestamp) :
    StandsFor txns committed key ((Mutation.plant item (txns j).id timestamp).apply .absent)
      image := by
  have hrow : ((Mutation.plant item (txns j).id timestamp).apply .absent).PreparedBy (txns j).id := rfl
  have hflag : ((Mutation.plant item (txns j).id timestamp).apply .absent).Flagged := rfl
  rw [standsFor_iff_of_not_pending (not_pending_of_not_committed hj hrow),
    physical_of_planted hflag hrow]
  exact (standsFor_iff_of_unprepared rfl).mp h

theorem StandsFor.mark (h : StandsFor txns committed key row image)
    (hrow : row.preparedTxnId = none) (hflag : ¬ row.Flagged) (timestamp) :
    StandsFor txns committed key ((Mutation.mark (txns j).id timestamp).apply row) image := by
  have hmarked : ((Mutation.mark (txns j).id timestamp).apply row).PreparedBy (txns j).id := rfl
  have hflag' : ¬ ((Mutation.mark (txns j).id timestamp).apply row).Flagged := hflag
  rw [standsFor_iff_of_not_pending (not_pending_of_not_committed hj hmarked),
    physical_of_not_flagged hflag']
  exact (standsFor_iff_of_unprepared hrow).mp h

theorem StandsFor.clear
    (h : StandsFor txns committed key row image) (hrow : row.PreparedBy (txns j).id)
    (hflag : ¬ row.Flagged) : StandsFor txns committed key (Mutation.clear.apply row) image := by
  rw [standsFor_iff_of_unprepared rfl, h.settled (not_pending_of_not_committed hj hrow),
    physical_of_not_flagged hflag]
  rfl

end

theorem StandsFor.deletePlanted (h : StandsFor txns committed key row image)
    (hrow : row.PreparedBy (txns j).id) (hflag : row.Flagged)
    (hops : (txns j).id ∈ committed → ∃ op, Pending txns committed key row j op ∧
      memberImage cfg op none = some none) :
    StandsFor txns committed key (Mutation.delete.apply row) image := by
  rw [standsFor_iff_of_unprepared rfl]
  by_cases hj : (txns j).id ∈ committed
  · obtain ⟨op, hpending, hnone⟩ := hops hj
    have himage := h.pending j op hpending
    rw [physical_of_planted hflag hrow, hnone] at himage
    exact (some.inj himage).symm
  · rw [h.settled (not_pending_of_not_committed hj hrow), physical_of_planted hflag hrow]
    rfl

theorem StandsFor.settle (h : StandsFor txns committed key row image)
    (hpending : Pending txns committed key row j op) {row'} (hrow : row'.preparedTxnId = none)
    (himage : memberImage cfg op (physical txns row) = some row'.itemData) :
    StandsFor txns committed key row' image := by
  rw [standsFor_iff_of_unprepared hrow]
  exact (some.inj (himage.symm.trans (h.pending j op hpending))).symm

end

end ExtendDb.Cassandra
