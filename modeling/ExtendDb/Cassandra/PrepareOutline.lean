import ExtendDb.Cassandra.Statements

/-!
# What PREPARE issues and returns

Whatever the database answers, PREPARE reads rows and places markers of its own transaction on the
rows of its members, and what it returns for a member is an image the member was evaluated on.
-/

namespace ExtendDb.Cassandra

open Interaction Interaction.Program Fallible List

def TransactOp.IsCheck (op : TransactOp) : Prop :=
  match op.op with
  | .conditionCheck _ _ _ => True
  | _ => False

inductive PrepareStatement (cfg : CassandraEngine) (txnId : Uuid) (txnTimestamp : Int)
    (op : TransactOp) : Statement → Prop where
  | select (key : RowKey) : PrepareStatement cfg txnId txnTimestamp op (.select key)
  | selectMaxDelete (part : String × String) :
      PrepareStatement cfg txnId txnTimestamp op (.selectMaxDelete part)
  | plant {key} (hkey : rowKey cfg op op.key = .ok key) : PrepareStatement cfg txnId txnTimestamp op
        (.lwt key .notExists (.plant op.key txnId txnTimestamp))
  | mark {key} (hkey : rowKey cfg op op.key = .ok key) (hop : ¬ op.IsCheck) :
      PrepareStatement cfg txnId txnTimestamp op (.lwt key .unprepared (.mark txnId txnTimestamp))

/-- What PREPARE returns for a member: the item an Update writes, and an image that the member's
condition accepts.  A Put that finds its row gone after a lost race keeps no such promise. -/
def Prepared (cfg : CassandraEngine) (op : TransactOp) (images : Option Item × Option Item) : Prop :=
  match op.op with
  | .put _ _ condition =>
    images.1 = none ∧ (images.2 = none ∨ evalCondition condition images.2 = .ok ())
  | .delete _ _ condition => images.1 = none ∧ evalCondition condition images.2 = .ok ()
  | .update _ key actions maps condition =>
    ∃ item, computeTransactUpdate cfg op key images.2 actions condition maps = .ok item ∧
      images.1 = if images.2.isNone && removesOnly actions then none else some item
  | .conditionCheck _ _ condition =>
    images.1 = none ∧ evalCondition (some condition) images.2 = .ok ()

variable {cfg : CassandraEngine}

theorem rowKeyOr_eq_ok {ε ε' : Type} {missing : ε} {missing' : ε'}
    {wrap wrap' tableId keyInfo key row}
    (h : rowKeyOr cfg missing wrap tableId keyInfo key = .ok row) :
    rowKeyOr cfg missing' wrap' tableId keyInfo key = .ok row := by
  obtain ⟨pk, hpk, h⟩ := unbind h
  refine bind_eq_ok.mpr ⟨pk, mapError_eq_ok.mpr (mapError_eq_ok.mp hpk), ?_⟩
  cases hsk : skInfo keyInfo.keySchema keyInfo.attributeDefinitions with
  | none =>
    rw [hsk] at h
    exact congrArg Except.ok (Except.ok.inj h)
  | some sk =>
    rw [hsk] at h
    cases hvalue : OrdMap.get? key sk.1 with
    | none =>
      simp only [hvalue] at h
      cases h
    | some value =>
      simp only [hvalue] at h ⊢
      obtain ⟨parsed, hparsed, h⟩ := unbind h
      refine bind_eq_ok.mpr ⟨parsed, mapError_eq_ok.mpr (mapError_eq_ok.mp hparsed), ?_⟩
      exact congrArg Except.ok (Except.ok.inj h)

theorem computeTransactUpdate_ok {op key item existing actions condition maps}
    (h : computeTransactUpdate cfg op key existing actions condition maps = .ok item) :
    evalCondition condition existing = .ok () ∧
      applyUpdate cfg.bigDecimal maps actions (existing.getD key) = .ok item := by
  obtain ⟨-, -, h⟩ := unbind h
  obtain ⟨⟨⟩, hcondition, h⟩ := unbind h
  obtain ⟨item', happly, h⟩ := unbind h
  obtain ⟨-, -, h⟩ := unbind h
  obtain ⟨-, -, h⟩ := unbind h
  cases h
  exact ⟨hcondition, mapError_eq_ok.mp happly⟩

variable {txnId : Uuid} {txnTimestamp : Int} {op : TransactOp}

section

variable {P : Statement → Prop}

theorem liftReason_outline {α : Type} (r : Except CancellationReason α) :
    (liftReason r).Outline P (fun result => result = r) := rfl

theorem lift_outline {α : Type} (r : Except StorageError α) :
    (lift r).Outline P (fun result => result = r.mapError .storage) := rfl

theorem ask_outline {ε : Type} {failed : String → ε} {s} (hs : P s) :
    (ask failed s).Outline P (fun _ => True) :=
  Outline.query hs fun _ => trivial

theorem mapError_outline {ε ε' α : Type} {p : Session ε α} {f : ε → ε'}
    (h : p.Outline P fun _ => True) : (p.mapError f).Outline P (fun _ => True) :=
  Outline.mapError h fun _ _ => trivial

section

variable (hP : ∀ key, P (.select key))
include hP

theorem pollCommitted_outline (key) (polls) :
    (pollCommitted key polls).Outline P (fun _ => True) := by
  induction polls with
  | zero => exact trivial
  | succ polls ih =>
    refine .bind (mapError_outline (ask_outline (hP key))) ?_ fun _ _ => trivial
    rintro (_ | row) -
    · exact trivial
    dsimp only
    split
    · cases row.itemData <;> exact trivial
    · exact ih

theorem waitForCommitAndRead_outline (key : Item) :
    (waitForCommitAndRead cfg op key).Outline P (fun _ => True) :=
  Outline.bind (liftReason_outline _) (fun _ _ => pollCommitted_outline hP _ _) fun _ _ => trivial

theorem fetchRowForTransaction_outline (key skip) :
    (fetchRowForTransaction cfg op key skip).Outline P (fun _ => True) := by
  refine .bind (lift_outline _) (fun row _ => ?_) fun _ _ => trivial
  refine .bind (ask_outline (hP row)) ?_ fun _ _ => trivial
  rintro (_ | columns) -
  · exact trivial
  dsimp only
  split
  · exact .bind (mapError_outline (waitForCommitAndRead_outline hP key))
      (fun _ _ => trivial) fun _ _ => trivial
  · exact trivial

theorem fetchItemForTransaction_outline (key skip) :
    (fetchItemForTransaction cfg op key skip).Outline P (fun _ => True) :=
  Outline.bind (fetchRowForTransaction_outline hP key skip) (fun _ _ => trivial) fun _ _ => trivial

theorem readExisting_outline (key) : (readExisting cfg op key).Outline P (fun _ => True) :=
  mapError_outline (fetchItemForTransaction_outline hP key none)

end

theorem checkPartitionMaxDeleteTimestamp_outline (hP : ∀ part, P (.selectMaxDelete part))
    (key timestamp) :
    (checkPartitionMaxDeleteTimestamp cfg op key timestamp).Outline P (fun _ => True) := by
  refine .bind (liftReason_outline _) (fun pk _ => ?_) fun _ _ => trivial
  refine .bind (ask_outline (hP _)) (fun maxTs _ => ?_) fun _ _ => trivial
  split <;> exact trivial

end

section

theorem prepareItem_outline {isNewItem key} (hopKey : op.key = key)
    (hop : isNewItem = false → ¬ op.IsCheck) :
    (prepareItem cfg op txnId txnTimestamp key isNewItem).Outline
      (PrepareStatement cfg txnId txnTimestamp op) (fun _ => True) := by
  subst hopKey
  refine .bind (liftReason_outline _) (fun row hrow => ?_) fun _ _ => trivial
  have hkey : rowKey cfg op op.key = .ok row := rowKeyOr_eq_ok hrow.symm
  cases isNewItem with
  | true =>
    refine .bind (ask_outline (.plant hkey)) (fun applied _ => ?_) fun _ _ => trivial
    split <;> exact trivial
  | false =>
    refine .bind (ask_outline (.mark hkey (hop rfl))) (fun applied _ => ?_) fun _ _ => trivial
    split <;> exact trivial

/-- After a lost race for a marker, the loop waits for the winner and goes on with `retry`. -/
theorem markerLoop_outline {α : Type} {P Q} {attempt : Session CancellationReason Unit}
    {placed retry} (hattempt : attempt.Outline P fun _ => True) (hplaced : Q (.ok placed))
    (herror : ∀ reason, Q (.error reason)) (hretry : retry.Outline P Q) :
    (attempt.attempt >>= fun
      | .ok () => pure placed
      | .error reason => if reason.code == conflictCode then retry else fail reason :
        Session CancellationReason α).Outline P Q := by
  refine .bind (.attempt hattempt) ?_ ?_
  · rintro (reason | ⟨⟩) -
    · dsimp only
      split
      · exact hretry
      · exact herror reason
    · exact hplaced
  · intro e _
    exact herror e

variable {condition : Option Condition} {keyInfo : TableKeyInfo}

theorem markPut_outline {item : Item} (hop : op.op = .put keyInfo item condition) (retries existing)
    (hexisting : existing = none ∨ evalCondition condition existing = .ok ()) :
    (markPut cfg op txnId txnTimestamp item condition retries existing).Outline
      (PrepareStatement cfg txnId txnTimestamp op)
      (fun result => ∀ image, result = .ok image →
        image = none ∨ evalCondition condition image = .ok ()) := by
  have hitem : op.key = item := by rw [TransactOp.key, hop]; rfl
  have hcheck : ¬ op.IsCheck := by rw [TransactOp.IsCheck, hop]; exact not_false
  induction retries generalizing existing with
  | zero =>
    refine .bind_ok (prepareItem_outline hitem fun _ => hcheck) fun _ _ => ?_
    rintro image ⟨⟩
    exact hexisting
  | succ retries ih =>
    refine markerLoop_outline (prepareItem_outline hitem fun _ => hcheck) ?_
      (fun reason image himage => by cases himage) ?_
    · rintro image ⟨⟩
      exact hexisting
    refine .bind_ok (waitForCommitAndRead_outline .select item) ?_
    rintro (_ | winner) -
    · exact ih none (.inl rfl)
    · refine .bind_ok (liftReason_outline _) fun _ hcond => ih _ (.inr hcond.symm)

variable {key : Item}

theorem markAbsent_outline (hkey : op.key = key)
    (hnone : evalCondition condition none = .ok ()) (retries : Nat) :
    (markAbsent cfg op txnId txnTimestamp key condition retries).Outline
      (PrepareStatement cfg txnId txnTimestamp op)
      (fun result => ∀ image, result = .ok image → evalCondition condition image = .ok ()) := by
  induction retries with
  | zero =>
    refine .bind_ok (prepareItem_outline hkey fun h => by cases h) fun _ _ => ?_
    rintro image ⟨⟩
    exact hnone
  | succ retries ih =>
    refine markerLoop_outline (prepareItem_outline hkey fun h => by cases h) ?_
      (fun reason image himage => by cases himage) ?_
    · rintro image ⟨⟩
      exact hnone
    refine .bind_ok (waitForCommitAndRead_outline .select key) ?_
    rintro (_ | winner) -
    · exact ih
    · refine .bind_ok (liftReason_outline _) fun _ hcond => ?_
      rintro image ⟨⟩
      exact hcond.symm

variable {actions : List UpdateAction} {maps : ExpressionMaps}

theorem markUpdate_outline (hop : op.op = .update keyInfo key actions maps condition)
    (retries : Nat) (existing item)
    (hitem : computeTransactUpdate cfg op key existing actions condition maps = .ok item) :
    (markUpdate cfg op txnId txnTimestamp key actions condition maps retries existing item).Outline
      (PrepareStatement cfg txnId txnTimestamp op)
      (fun result => ∀ image written, result = .ok (image, written) →
        computeTransactUpdate cfg op key image actions condition maps = .ok written) := by
  have hkey : op.key = key := by rw [TransactOp.key, hop]; rfl
  have hcheck : ¬ op.IsCheck := by rw [TransactOp.IsCheck, hop]; exact not_false
  induction retries generalizing existing item with
  | zero =>
    refine .bind (prepareItem_outline hkey fun _ => hcheck) (fun _ _ => ?_)
      fun e _ _ _ himage => by cases himage
    rintro image written ⟨⟩
    exact hitem
  | succ retries ih =>
    refine markerLoop_outline (prepareItem_outline hkey fun _ => hcheck) ?_
      (fun reason _ _ himage => by cases himage) ?_
    · rintro image written ⟨⟩
      exact hitem
    refine .bind (waitForCommitAndRead_outline .select key) (fun winner _ => ?_)
      fun e _ _ _ himage => by cases himage
    exact .bind (liftReason_outline _) (fun written hwritten => ih _ _ hwritten.symm)
      fun e _ _ _ himage => by cases himage

/-- The result of PREPARE for a member is one its outline promises. -/
def PreparedResult (cfg : CassandraEngine) (op : TransactOp)
    (result : Except CancellationReason (Option Item × Option Item)) : Prop :=
  ∀ images, result = .ok images → Prepared cfg op images

theorem preparePut_outline {item} (hop : op.op = .put keyInfo item condition) :
    (preparePut cfg op txnId txnTimestamp item condition).Outline
      (PrepareStatement cfg txnId txnTimestamp op) (PreparedResult cfg op) := by
  refine .bind_ok (liftReason_outline _) fun _ _ => ?_
  refine .bind_ok (readExisting_outline .select item) fun existing _ => ?_
  refine .bind_ok (liftReason_outline _) fun _ _ => ?_
  refine .bind_ok (liftReason_outline _) fun _ _ => ?_
  refine .bind_ok (liftReason_outline _) fun _ hcond => ?_
  have hmark : (markPut cfg op txnId txnTimestamp item condition markerRetries existing >>=
      fun image => (pure (none, image) : Session CancellationReason
        (Option Item × Option Item))).Outline
        (PrepareStatement cfg txnId txnTimestamp op) (PreparedResult cfg op) := by
    refine .bind_ok (markPut_outline hop _ _ (.inr hcond.symm)) fun image himage => ?_
    rintro images ⟨⟩
    rw [Prepared, hop]
    exact ⟨rfl, himage image rfl⟩
  cases existing with
  | some _ => exact hmark
  | none =>
    exact .bind_ok (checkPartitionMaxDeleteTimestamp_outline .selectMaxDelete item _)
      fun _ _ => hmark

theorem prepareDelete_outline (hop : op.op = .delete keyInfo key condition) :
    (prepareDelete cfg op txnId txnTimestamp key condition).Outline
      (PrepareStatement cfg txnId txnTimestamp op) (PreparedResult cfg op) := by
  have hkey : op.key = key := by rw [TransactOp.key, hop]; rfl
  have hcheck : ¬ op.IsCheck := by rw [TransactOp.IsCheck, hop]; exact not_false
  refine .bind_ok (liftReason_outline _) fun _ _ => ?_
  refine .bind_ok (readExisting_outline .select key) fun existing _ => ?_
  refine .bind_ok (liftReason_outline _) fun _ hcond => ?_
  have hresult : PreparedResult cfg op (.ok (none, existing)) := by
    rintro images ⟨⟩
    rw [Prepared, hop]
    exact ⟨rfl, hcond.symm⟩
  split
  · rename_i habsent
    obtain ⟨-, hexisting⟩ := Bool.and_eq_true_iff.mp habsent
    rw [Option.isNone_iff_eq_none.mp hexisting] at hcond
    refine .bind_ok (checkPartitionMaxDeleteTimestamp_outline .selectMaxDelete key _) fun _ _ => ?_
    exact .bind_ok (markAbsent_outline hkey hcond.symm _) fun _ _ => hresult
  · exact .bind_ok (prepareItem_outline hkey fun _ => hcheck) fun _ _ => hresult

theorem prepareUpdate_outline (hop : op.op = .update keyInfo key actions maps condition) :
    (prepareUpdate cfg op txnId txnTimestamp key actions maps condition).Outline
      (PrepareStatement cfg txnId txnTimestamp op) (PreparedResult cfg op) := by
  refine .bind_ok (liftReason_outline _) fun _ _ => ?_
  refine .bind_ok (readExisting_outline .select key) fun existing _ => ?_
  refine .bind_ok (liftReason_outline _) fun item hitem => ?_
  refine .bind_ok (liftReason_outline _) fun _ _ => ?_
  have hmark : (markUpdate cfg op txnId txnTimestamp key actions condition maps markerRetries existing
      item >>= fun marked =>
        if marked.1.isNone && removesOnly actions then
          (pure (none, marked.1) : Session CancellationReason (Option Item × Option Item))
        else pure (some marked.2, marked.1)).Outline
        (PrepareStatement cfg txnId txnTimestamp op) (PreparedResult cfg op) := by
    refine .bind_ok (markUpdate_outline hop _ _ _ hitem.symm) fun result hresult => ?_
    obtain ⟨image, written⟩ := result
    have hwritten := hresult image written rfl
    dsimp only
    split
    · rename_i hremoves
      rintro images ⟨⟩
      rw [Prepared, hop]
      exact ⟨written, hwritten, (if_pos hremoves).symm⟩
    · rename_i hwrites
      rintro images ⟨⟩
      rw [Prepared, hop]
      exact ⟨written, hwritten, (if_neg hwrites).symm⟩
  cases existing with
  | some _ => exact hmark
  | none =>
    exact .bind_ok (checkPartitionMaxDeleteTimestamp_outline .selectMaxDelete item _)
      fun _ _ => hmark

theorem prepareConditionCheck_outline {condition}
    (hop : op.op = .conditionCheck keyInfo key condition) :
    (prepareConditionCheck cfg op txnId txnTimestamp key condition).Outline
      (PrepareStatement cfg txnId txnTimestamp op) (PreparedResult cfg op) := by
  have hkey : op.key = key := by rw [TransactOp.key, hop]; rfl
  refine .bind_ok (liftReason_outline _) fun _ _ => ?_
  refine .bind_ok (readExisting_outline .select key) fun existing _ => ?_
  refine .bind_ok (liftReason_outline _) fun _ hcond => ?_
  have hresult {image : Option Item} (himage : evalCondition (some condition) image = .ok ()) :
      PreparedResult cfg op (.ok (none, image)) := by
    rintro images ⟨⟩
    rw [Prepared, hop]
    exact ⟨rfl, himage⟩
  cases existing with
  | some item => exact hresult hcond.symm
  | none =>
    refine .bind_ok (checkPartitionMaxDeleteTimestamp_outline .selectMaxDelete key _) fun _ _ => ?_
    exact .bind_ok (markAbsent_outline hkey hcond.symm _)
      fun image himage => hresult (himage image rfl)

variable (cfg txnId txnTimestamp op) in
theorem prepareSingleOperation_outline : (prepareSingleOperation cfg op txnId txnTimestamp).Outline
      (PrepareStatement cfg txnId txnTimestamp op) (PreparedResult cfg op) := by
  unfold prepareSingleOperation
  cases hop : op.op with
  | put keyInfo item condition => exact preparePut_outline hop
  | delete keyInfo key condition => exact prepareDelete_outline hop
  | update keyInfo key actions maps condition => exact prepareUpdate_outline hop
  | conditionCheck keyInfo key condition => exact prepareConditionCheck_outline hop

end

/-! ## The phase -/

section

def PreparesFor (cfg : CassandraEngine) (txnId : Uuid) (txnTimestamp : Int) (ops : List TransactOp)
    (s : Statement) : Prop :=
  ∃ op ∈ ops, PrepareStatement cfg txnId txnTimestamp op s

/-- Unless a member failed, the positions of `order` hold images the members were evaluated on, and
the other positions are as before. -/
structure PreparedInOrder (cfg : CassandraEngine) (order : List (TransactOp × Nat))
    (before after : PrepareProgress) : Prop where
  length : after.computed.length = before.computed.length
  failed : before.anyFailed = true → after.anyFailed = true
  images : after.anyFailed = false → ∀ p ∈ order, p.2 < before.computed.length →
    ∃ images, after.computed[p.2]? = some images ∧ Prepared cfg p.1 images
  others : ∀ i, (∀ p ∈ order, p.2 ≠ i) → after.computed[i]? = before.computed[i]?

variable {ops : List TransactOp}

theorem prepareInOrder_outline {ε : Type} {order} (hops : ∀ p ∈ order, p.1 ∈ ops)
    (hnodup : (order.map Prod.snd).Nodup) (progress) :
    (prepareInOrder cfg txnId txnTimestamp order progress : Session ε PrepareProgress).Outline
      (PreparesFor cfg txnId txnTimestamp ops)
      (fun result => ∃ after, result = .ok after ∧ PreparedInOrder cfg order progress after) := by
  induction order generalizing progress with
  | nil => exact ⟨progress, rfl, rfl, id, (fun _ p hp => by cases hp), fun _ _ => rfl⟩
  | cons member order ih =>
    obtain ⟨op, i⟩ := member
    have hrest := fun next => ih (fun p hp => hops p (.tail _ hp)) (nodup_cons.mp hnodup).2 next
    have hi : ∀ p ∈ order, p.2 ≠ i := fun p hp hpi =>
      (nodup_cons.mp hnodup).1 (mem_map.mpr ⟨p, hp, hpi⟩)
    have hsingle := (prepareSingleOperation_outline cfg txnId txnTimestamp op).mono
      (fun s hs => (⟨op, hops _ (.head _), hs⟩ : PreparesFor cfg txnId txnTimestamp ops s))
      fun _ => id
    refine .bind hsingle.attempt ?_ ?_
    · rintro (reason | images) ⟨_, ⟨⟩, hresult⟩
      · refine (hrest _).mono (fun _ => id) ?_
        rintro _ ⟨after, rfl, hafter⟩
        have hfailed : after.anyFailed = true := hafter.failed rfl
        refine ⟨after, rfl, hafter.length, fun _ => hfailed, fun h => ?_, fun j hj => ?_⟩
        · rw [hfailed] at h
          cases h
        · exact hafter.others j fun p hp => hj p (.tail _ hp)
      · refine (hrest _).mono (fun _ => id) ?_
        rintro _ ⟨after, rfl, hafter⟩
        refine ⟨after, rfl, ?_, fun h => hafter.failed h, fun h p hp hlt => ?_, fun j hj => ?_⟩
        · rw [hafter.length, length_set]
        · rcases mem_cons.mp hp with rfl | hmem
          · refine ⟨images, ?_, hresult images rfl⟩
            rw [hafter.others i hi, getElem?_set_self hlt]
          · exact hafter.images h p hmem (by rwa [length_set])
        · rw [hafter.others j fun p hp => hj p (.tail _ hp), getElem?_set_ne (hj (op, i) (.head _))]
    · rintro e ⟨_, h, _⟩
      cases h

theorem mem_prepareOrder {op i} : (op, i) ∈ prepareOrder cfg ops ↔ ops[i]? = some op := by
  rw [prepareOrder, (perm_insertionSort _ _).mem_iff, mk_mem_zipIdx_iff_getElem?]

theorem nodup_prepareOrder (ops) : ((prepareOrder cfg ops).map Prod.snd).Nodup := by
  have hperm : ((prepareOrder cfg ops).map Prod.snd).Perm (ops.zipIdx.map Prod.snd) :=
    (perm_insertionSort _ _).map _
  rw [hperm.nodup_iff, zipIdx_map_snd]
  exact nodup_range'

theorem executePreparePhase_outline (ops) : (executePreparePhase cfg txnId txnTimestamp ops).Outline
      (PreparesFor cfg txnId txnTimestamp ops)
      (fun result => ∀ computed, result = .ok computed →
        List.Forall₂ (Prepared cfg) ops computed) := by
  refine .bind (prepareInOrder_outline (fun p hp => ?_) (nodup_prepareOrder ops) _) ?_ ?_
  · exact mem_of_getElem? (mem_prepareOrder.mp hp)
  · rintro progress ⟨_, ⟨⟩, hprogress⟩
    split
    · rintro computed ⟨⟩
    rename_i hfailed
    rintro computed ⟨⟩
    have hlength : progress.computed.length = ops.length := by
      rw [hprogress.length, length_map]
    refine forall₂_iff_get.mpr ⟨hlength.symm, fun i hi hi' => ?_⟩
    obtain ⟨images, himages, hprepared⟩ := hprogress.images (Bool.not_eq_true _ ▸ hfailed)
      (ops[i], i) (mem_prepareOrder.mpr (getElem?_eq_getElem hi))
      (by rw [length_map]; exact hi)
    rw [getElem?_eq_getElem hi', Option.some.injEq] at himages
    simp only [get_eq_getElem]
    rw [himages]
    exact hprepared
  · rintro e ⟨_, h, _⟩
    cases h

end

end ExtendDb.Cassandra
