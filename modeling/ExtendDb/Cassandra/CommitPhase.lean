import ExtendDb.Cassandra.Coordinator

/-!
# COMMIT among other transactions

Once a ready transaction is set to COMMITTING, its commit loop cannot fail: every row it has to write
is under its marker, so nobody else touches it, and every statement under the marker is applied.
-/

namespace ExtendDb.Cassandra

open Interaction Interaction.Program Fallible Database

def Committable (cfg : CassandraEngine) (txn : Uuid) (op : TransactOp) (preparedItem : Option Item)
    (key : RowKey) (row : Row) : Prop :=
  match op.op with
  | .conditionCheck _ _ _ => row.PreparedBy txn → row.Flagged
  | .put _ _ _ | .delete _ _ _ => row.PreparedBy txn ∧ VersionFree row.version
  | .update _ opKey actions maps _ =>
    row.PreparedBy txn ∧ VersionFree row.version ∧
    match preparedItem with
    | none => row.Flagged ∧ memberImage cfg op none = some none
    | some _ => ∃ item, applyUpdate cfg.bigDecimal maps actions (row.itemData.getD opKey) = .ok item ∧
        rowKey cfg op item = .ok key ∧ memberImage cfg op (row.image txn) = some (some item)

variable {cfg : CassandraEngine} {op : TransactOp} {preparedItem : Option Item} {key : RowKey}

section

variable {txn : Uuid} {row row' : Row}

theorem Committable.stable (h : Committable cfg txn op preparedItem key row)
    (hrow : row.PreparedBy txn ∨ row'.PreparedBy txn → row' = row) :
    Committable cfg txn op preparedItem key row' := by
  by_cases hprepared : row.PreparedBy txn ∨ row'.PreparedBy txn
  · rw [hrow hprepared]
    exact h
  obtain ⟨hnot, hnot'⟩ := not_or.mp hprepared
  cases hop : op.op <;> rw [Committable, hop] at h ⊢
  case conditionCheck => exact fun hrow' => absurd hrow' hnot'
  all_goals exact absurd h.1 hnot

variable {images : Option Item × Option Item}

variable (hready : MemberReady cfg txn op images.2 key row)
include hready

theorem MemberReady.runs (hprepared : Prepared cfg op images) : Runs cfg op images.2 := by
  cases hop : op.op with
  | put keyInfo item condition =>
    rw [Prepared, hop] at hprepared
    have hcond : op.condition = condition := by rw [TransactOp.condition, hop]
    refine ⟨?_, some item, by rw [memberImage, hop]⟩
    rcases hprepared.2 with hnone | hcondition
    · rw [hnone]
      exact hready.condition hnone
    · rw [hcond]
      exact hcondition
  | delete keyInfo opKey condition =>
    rw [Prepared, hop] at hprepared
    exact ⟨by rw [TransactOp.condition, hop]; exact hprepared.2, none, by rw [memberImage, hop]⟩
  | conditionCheck keyInfo opKey condition =>
    rw [Prepared, hop] at hprepared
    exact ⟨by rw [TransactOp.condition, hop]; exact hprepared.2, images.2, by rw [memberImage, hop]⟩
  | update keyInfo opKey actions maps condition =>
    rw [Prepared, hop] at hprepared
    obtain ⟨item, hcompute, -⟩ := hprepared
    obtain ⟨hcondition, happly⟩ := computeTransactUpdate_ok hcompute
    refine ⟨by rw [TransactOp.condition, hop]; exact hcondition, ?_⟩
    rw [memberImage, hop]
    simp only [happly]
    exact ⟨_, rfl⟩

theorem MemberReady.committable (hprepared : Prepared cfg op images)
    (hkey : rowKey cfg op op.key = .ok key)
    (hplanted : row.PreparedBy txn → row.Flagged → row.itemData = some op.key)
    (hkeeps : ∀ keyInfo opKey actions maps condition,
      op.op = .update keyInfo opKey actions maps condition →
      validateNoKeyUpdates actions keyInfo maps = .ok ()) :
    Committable cfg txn op images.1 key row := by
  have hfenced := hready.fenced
  have hversion := hready.version
  cases hop : op.op <;> rw [Fenced, hop] at hfenced <;> rw [TransactOp.IsCheck, hop] at hversion <;>
    rw [Committable, hop]
  case put => exact ⟨hfenced, hversion not_false⟩
  case delete => exact ⟨hfenced, hversion not_false⟩
  case conditionCheck =>
    intro hrow
    rcases hfenced with hnone | ⟨-, hflag⟩
    · exact absurd (hrow.symm.trans hnone) (Option.some_ne_none _)
    · exact hflag
  case update keyInfo opKey actions maps condition =>
    obtain ⟨hrow, hitem⟩ := hfenced
    rw [Prepared, hop] at hprepared
    obtain ⟨item, hcompute, himage⟩ := hprepared
    obtain ⟨-, happly⟩ := computeTransactUpdate_ok hcompute
    have hopKey : op.key = opKey := by rw [TransactOp.key, hop]; rfl
    have hpre := hready.image
    -- a planted row holds the key, on which the update was computed
    have hbase : row.itemData.getD opKey = images.2.getD opKey := by
      by_cases hflag : row.Flagged
      · rw [Row.image, if_pos ⟨hflag, hrow⟩] at hpre
        rw [hplanted hrow hflag, ← hpre, hopKey]
        rfl
      · rw [Row.image, if_neg fun h => hflag h.1] at hpre
        rw [hpre]
    have hrowKey : rowKey cfg op item = .ok key := by
      rw [rowKey_applyUpdate hop (hkeeps _ _ _ _ _ hop) happly]
      cases hexisting : images.2 with
      | none => exact hopKey ▸ hkey
      | some existing => exact hready.stored existing hexisting
    have hmember : memberImage cfg op images.2 =
        some (if images.2.isNone && removesOnly actions then none else some item) := by
      rw [memberImage, hop]
      simp [happly]
    refine ⟨hrow, hversion not_false, ?_⟩
    rw [himage]
    split
    · rename_i hremoves
      split at hremoves
      · rename_i hnone
        have habsent := Option.isNone_iff_eq_none.mp (Bool.and_eq_true_iff.mp hnone).1
        refine ⟨?_, ?_⟩
        · by_contra hflag
          rw [Row.image, if_neg fun h => hflag h.1, habsent] at hpre
          rw [hpre] at hitem
          cases hitem
        · rw [habsent] at hmember hnone
          rw [hmember, if_pos hnone]
      · cases hremoves
    · rename_i hremoves
      split at hremoves
      · cases hremoves
      · rename_i hwrites
        refine ⟨item, hbase ▸ happly, hrowKey, ?_⟩
        rw [hpre, hmember, if_neg hwrites]

end

/-! ## The loop -/

section

variable {ι π : Type} {txns : ι → Transaction cfg} {content₀ : Content} {p : π} {j : ι}
  {h h' : History π}

/-- What the commit loop has left to do: the markers that remain are on the rows of the members that
remain. -/
structure Committing (txn : Transaction cfg) (members : List (TransactOp × Option Item))
    (h : History π) : Prop where
  committed : txn.id ∈ h.committed
  distinct : (members.map fun m => rowKey cfg m.1 m.1.key).Nodup
  ready : ∀ m ∈ members, m.1 ∈ txn.ops ∧ ∀ key, rowKey cfg m.1 m.1.key = .ok key →
    Committable cfg txn.id m.1 m.2 key (h.db.rows key)
  rows : ∀ key, (h.db.rows key).PreparedBy txn.id → ∃ m ∈ members, rowKey cfg m.1 m.1.key = .ok key

variable {txn : Transaction cfg} {members : List (TransactOp × Option Item)}

theorem Committing.stable (hm : Committing txn members h) (hr : Unaffected txn.id h h') :
    Committing txn members h' :=
  ⟨hr.committed.mpr hm.committed, hm.distinct, fun m hmem => ⟨(hm.ready m hmem).1, fun key hkey =>
      ((hm.ready m hmem).2 key hkey).stable (hr.rows key)⟩,
    fun key hrow => hm.rows key (hr.prepared hrow)⟩

theorem Committing.head (hm : Committing txn ((op, preparedItem) :: members) h)
    (hkey : rowKey cfg op op.key = .ok key) :
    Committable cfg txn.id op preparedItem key (h.db.rows key) :=
  (hm.ready _ (.head _)).2 key hkey

theorem Committing.pending (hm : Committing (txns j) ((op, preparedItem) :: members) h)
    (hkey : rowKey cfg op op.key = .ok key) (hrow : (h.db.rows key).PreparedBy (txns j).id) :
    Pending txns h.committed key (h.db.rows key) j op :=
  ⟨hm.committed, (hm.ready _ (.head _)).1, hkey, hrow⟩

theorem Committing.done (hm : Committing txn ((op, preparedItem) :: members) h)
    (hkey : rowKey cfg op op.key = .ok key) (hcommitted : h'.committed = h.committed)
    (hothers : ∀ key', key' ≠ key → h'.db.rows key' = h.db.rows key')
    (hrow : ¬ (h'.db.rows key).PreparedBy txn.id) : Committing txn members h' := by
  obtain ⟨hnotMem, hnodup⟩ := List.nodup_cons.mp hm.distinct
  refine ⟨hcommitted ▸ hm.committed, hnodup, fun m hmem => ?_, fun key' hrow' => ?_⟩
  · obtain ⟨hop, hcommittable⟩ := hm.ready m (.tail _ hmem)
    refine ⟨hop, fun key' hkey' => ?_⟩
    have hne : key' ≠ key := by
      rintro rfl
      exact hnotMem (List.mem_map.mpr ⟨m, hmem, hkey'.trans hkey.symm⟩)
    rw [hothers key' hne]
    exact hcommittable key' hkey'
  · have hne : key' ≠ key := by
      rintro rfl
      exact hrow hrow'
    rw [hothers key' hne] at hrow'
    obtain ⟨m, hmem, hkey'⟩ := hm.rows key' hrow'
    rcases List.mem_cons.mp hmem with rfl | hmem
    · exact absurd (Except.ok.inj (hkey'.symm.trans hkey)) hne
    · exact ⟨m, hmem, hkey'⟩

theorem selectRow_keeps (hrow : (h.db.rows key).PreparedBy (txns j).id) : Keeps txns content₀ p j
      (fun result h' => Unaffected (txns j).id h h' ∧ result = .ok (some (h.db.rows key)))
      (selectRow key) h := by
  refine keeps_neutral ⟨trivial, trivial⟩ fun h₁ h₂ hr hr' _ => ⟨hr.trans hr', ?_⟩
  have heq := hr.rows key (.inl hrow)
  rw [← heq] at hrow ⊢
  exact congrArg Except.ok (perform_select_of_prepared hrow)

theorem fetchRowForTransaction_keeps (hkey : rowKey cfg op op.key = .ok key)
    (hrow : (h.db.rows key).PreparedBy (txns j).id) :
    Keeps txns content₀ p j
      (fun result h' => Unaffected (txns j).id h h' ∧ ∃ row, result = .ok row ∧
        row.item = (h.db.rows key).itemData ∧ row.version = (h.db.rows key).version)
      (fetchRowForTransaction cfg op op.key (some (txns j).id)) h := by
  rw [fetchRowForTransaction, hkey, lift_ok_bind]
  refine .bind (selectRow_keeps hrow) ?_ ?_
  · rintro _ h₁ - ⟨hr, ⟨⟩⟩
    have hown : ((h.db.rows key).preparedTxnId.isSome &&
        (h.db.rows key).preparedTxnId != some (txns j).id) = false := by
      rw [show (h.db.rows key).preparedTxnId = some (txns j).id from hrow]
      simp
    simp only [hown]
    exact fun h₂ hr' _ => ⟨hr.trans hr', _, rfl, rfl, rfl⟩
  · rintro _ _ - ⟨-, ⟨⟩⟩

/-- The program leaves `members` to be committed. -/
abbrev Commits (txns : ι → Transaction cfg) (content₀ : Content) (p : π) (j : ι)
    (members : List (TransactOp × Option Item)) (program : Session TransactionError Unit) :=
  Keeps txns content₀ p j (fun result h' => result = .ok () ∧ Committing (txns j) members h') program

theorem nowMicros_keeps : Keeps txns content₀ p j
      (fun result h' => Unaffected (txns j).id h h' ∧ ∃ now, result = .ok now) nowMicros h :=
  keeps_neutral ⟨trivial, trivial⟩ fun _ _ hr hr' _ => ⟨hr.trans hr', _, rfl⟩

section

variable (hm : Committing (txns j) ((op, preparedItem) :: members) h)
  (hkey : rowKey cfg op op.key = .ok key)
include hm hkey

theorem commitLwt_keeps (hrow : (h.db.rows key).PreparedBy (txns j).id) {mutation}
    (howned : (Statement.lwt key (.preparedBy (txns j).id) mutation).OwnedBy (txns j).id)
    (hunmarked : (mutation.apply (h.db.rows key)).preparedTxnId = none)
    (hflag : ¬ (mutation.apply (h.db.rows key)).Flagged)
    (hstands : ∀ committed image, Pending txns committed key (h.db.rows key) j op →
      StandsFor txns committed key (h.db.rows key) image →
      StandsFor txns committed key (mutation.apply (h.db.rows key)) image) :
    Commits txns content₀ p j members (commitLwt (txns j).id key mutation) h := by
  refine .bind (Q := fun result h' => result = .ok true ∧ Committing (txns j) members h')
    (keeps_ask howned fun h₁ hr hc _ => ?_) ?_ ?_
  · have heq := hr.rows key (.inl hrow)
    have hm₁ := hm.stable hr
    rw [← heq] at hrow hunmarked hflag hstands
    have hguard : (Guard.preparedBy (txns j).id).holds (h₁.db.rowExists key) (h₁.db.rows key) =
        true := decide_eq_true hrow
    refine ⟨hc.lwt p fun _ => ⟨fun hflagged => absurd hflagged hflag, fun image himage => ?_⟩,
      fun h₂ hr' _ => ?_⟩
    · exact hstands _ _ (hm₁.pending hkey hrow) himage
    · have hperform : h₁.db.perform (.lwt key (.preparedBy (txns j).id) mutation) =
          (true, h₁.db.mutate key mutation) := if_pos hguard
      refine ⟨congrArg (fun r => Except.ok r.1) hperform, .stable (hm₁.done hkey
        (History.committed_exec_lwt ..) (fun key' => rows_perform_lwt_of_ne) ?_) hr'⟩
      · rw [History.exec_db, hperform, rows_mutate_self, Row.PreparedBy, hunmarked]
        exact fun h => by cases h
  · rintro _ h₁ - ⟨⟨⟩, hm₁⟩
    exact fun h₂ hr _ => ⟨rfl, hm₁.stable hr⟩
  · rintro _ _ - ⟨⟨⟩, -⟩

theorem commitConditionCheck_keeps
    (hflag : (h.db.rows key).PreparedBy (txns j).id → (h.db.rows key).Flagged)
    (himage : memberImage cfg op none = some none) :
    Commits txns content₀ p j members (commitConditionCheck cfg (txns j).id op op.key) h := by
  rw [commitConditionCheck, hkey, lift_ok_bind]
  refine .bind (Q := fun result h' => (∃ applied, result = .ok applied) ∧
    Committing (txns j) members h') (keeps_ask rfl fun h₁ hr hc _ => ?_) ?_ ?_
  · have hm₁ := hm.stable hr
    refine ⟨hc.lwt p (fun hguard => ⟨(fun hflagged => by cases hflagged), fun image hstands => ?_⟩),
      fun h₂ hr' _ => ⟨⟨_, rfl⟩, .stable (hm₁.done hkey (History.committed_exec_lwt ..)
        (fun key' => rows_perform_lwt_of_ne) ?_) hr'⟩⟩
    · obtain ⟨hprepared, hflagged⟩ := Bool.and_eq_true_iff.mp hguard
      have hrow := of_decide_eq_true hprepared
      exact hstands.deletePlanted hrow (of_decide_eq_true hflagged)
        fun _ => ⟨op, hm₁.pending hkey hrow, himage⟩
    · rw [History.exec_db]
      rcases h₁.db.perform_lwt key (.plantedBy (txns j).id) .delete with
        ⟨-, hperform⟩ | ⟨hguard, hperform⟩ <;> rw [hperform]
      · rw [rows_mutate_self]
        exact fun h => by cases h
      intro hrow
      have hflagged := hflag (hr.prepared hrow)
      rw [← hr.rows key (.inr hrow)] at hflagged
      have hholds : (Guard.plantedBy (txns j).id).holds (h₁.db.rowExists key) (h₁.db.rows key) =
          true := Bool.and_eq_true_iff.mpr ⟨decide_eq_true hrow, decide_eq_true hflagged⟩
      rw [hholds] at hguard
      cases hguard
  · rintro _ h₁ - ⟨-, hm₁⟩
    exact fun h₂ hr _ => ⟨rfl, hm₁.stable hr⟩
  · rintro _ _ - ⟨⟨_, ⟨⟩⟩, -⟩

omit hm in
theorem keeps_versioned {α β : Type} {Q} {stamp : Option Int → Int → Except StorageError β}
    (hstamp : ∀ version now, VersionFree version → ∃ value, stamp version now = .ok value)
    (hrow : (h.db.rows key).PreparedBy (txns j).id) (hversion : VersionFree (h.db.rows key).version)
    {finish : TransactionRow → β → Session TransactionError α}
    (hfinish : ∀ row value h', row.item = (h.db.rows key).itemData → Unaffected (txns j).id h h' →
      Keeps txns content₀ p j Q (finish row value) h') :
    Keeps txns content₀ p j Q
      (fetchRowForTransaction cfg op op.key (some (txns j).id) >>= fun row =>
        nowMicros >>= fun now => lift (stamp row.version now) >>= finish row) h := by
  refine .bind (fetchRowForTransaction_keeps hkey hrow) ?_ ?_
  · rintro row h₁ - ⟨hr, _, ⟨⟩, hitem, hrowVersion⟩
    refine .bind nowMicros_keeps ?_ ?_
    · rintro now h₂ - ⟨hr', -⟩
      obtain ⟨value, hvalue⟩ := hstamp row.version now (hrowVersion ▸ hversion)
      rw [hvalue]
      exact hfinish row value h₂ hitem (hr.trans hr')
    · rintro _ _ - ⟨-, _, ⟨⟩⟩
  · rintro _ _ - ⟨-, _, ⟨⟩, -⟩

theorem commitPutOrUpdate_keeps (hrow : (h.db.rows key).PreparedBy (txns j).id) {item}
    (hitem : rowKey cfg op item = .ok key)
    (himage : memberImage cfg op (physical txns (h.db.rows key)) = some (some item))
    (version timestamp) :
    Commits txns content₀ p j members
      (commitPutOrUpdate cfg (txns j).id timestamp op item version) h := by
  rw [commitPutOrUpdate, hitem]
  refine commitLwt_keeps hm hkey hrow rfl rfl (fun hflag => by cases hflag) ?_
  exact fun committed image hpending hstands => hstands.settle hpending rfl himage

variable {condition : Option Condition} {keyInfo : TableKeyInfo}

theorem commitPut_keeps {item : Item} (hop : op.op = .put keyInfo item condition) (timestamp) :
    Commits txns content₀ p j members (commitPut cfg (txns j).id timestamp op item) h := by
  have hitem : op.key = item := by rw [TransactOp.key, hop]; rfl
  have hready := hm.head hkey
  rw [Committable, hop] at hready
  obtain ⟨hrow, hversion⟩ := hready
  rw [← hitem]
  refine keeps_versioned hkey (fun _ now hfree => nextRowVersionAt_ok hfree now) hrow hversion
    fun row version h₁ _ hr => ?_
  rw [← hr.rows key (.inl hrow)] at hrow
  refine commitPutOrUpdate_keeps (hm.stable hr) hkey hrow hkey ?_ _ _
  rw [memberImage, hop, hitem]

theorem commitUpdate_keeps {opKey actions maps}
    (hop : op.op = .update keyInfo opKey actions maps condition) (timestamp) :
    Commits txns content₀ p j members
      (commitUpdate cfg (txns j).id timestamp op opKey actions maps preparedItem) h := by
  have hopKey : op.key = opKey := by rw [TransactOp.key, hop]; rfl
  have hready := hm.head hkey
  rw [Committable, hop] at hready
  obtain ⟨hrow, hversion, himage⟩ := hready
  cases preparedItem with
  | none =>
    rw [← hopKey]
    exact commitConditionCheck_keeps hm hkey (fun _ => himage.1) himage.2
  | some written =>
    obtain ⟨item, happly, hitem, himage⟩ := himage
    rw [← hopKey]
    refine .bind (fetchRowForTransaction_keeps hkey hrow) ?_ ?_
    · rintro row h₁ - ⟨hr, _, ⟨⟩, hrowItem, hrowVersion⟩
      rw [hrowItem, hopKey, mapError_eq_ok.mpr happly, lift_ok_bind]
      refine .bind nowMicros_keeps ?_ ?_
      · rintro now h₂ - ⟨hr', -⟩
        obtain ⟨version, hnext⟩ := nextRowVersionAt_ok (hrowVersion ▸ hversion) now
        have hr₂ := hr.trans hr'
        have hm₂ := hm.stable hr₂
        have heq := hr₂.rows key (.inl hrow)
        rw [hnext]
        refine commitPutOrUpdate_keeps hm₂ hkey (heq ▸ hrow) hitem ?_ _ _
        rw [heq, physical_eq_image (.inr hrow)]
        exact himage
      · rintro _ _ - ⟨-, _, ⟨⟩⟩
    · rintro _ _ - ⟨-, _, ⟨⟩, -⟩

omit hm hkey in
theorem updatePartitionMaxDelete_keeps (part) (timestamp) : Keeps txns content₀ p j
      (fun result h' => Unaffected (txns j).id h h' ∧ result = .ok ())
      (updatePartitionMaxDelete timestamp part) h := by
  refine .bind (Q := fun result h' => Unaffected (txns j).id h h' ∧ ∃ applied, result = .ok applied)
    (keeps_neutral ⟨trivial, trivial⟩ fun _ _ hr hr' _ => ⟨hr.trans hr', _, rfl⟩) ?_ ?_
  · rintro applied h₁ - ⟨hr, -⟩
    split
    · exact fun h₂ hr' _ => ⟨hr.trans hr', rfl⟩
    refine .bind (Q := fun result h' => Unaffected (txns j).id h h' ∧ ∃ raised, result = .ok raised)
      (keeps_neutral ⟨trivial, trivial⟩
        fun _ _ hr₁ hr' _ => ⟨hr.trans (hr₁.trans hr'), _, rfl⟩) ?_ ?_
    · rintro _ h₂ - ⟨hr₂, -⟩
      exact fun h₃ hr' _ => ⟨hr₂.trans hr', rfl⟩
    · rintro _ _ - ⟨-, _, ⟨⟩⟩
  · rintro _ _ - ⟨-, _, ⟨⟩⟩

theorem commitDelete_keeps {opKey : Item} (hop : op.op = .delete keyInfo opKey condition)
    (timestamp) : Commits txns content₀ p j members
      (commitDelete cfg (txns j).id timestamp op opKey) h := by
  have hopKey : op.key = opKey := by rw [TransactOp.key, hop]; rfl
  have hready := hm.head hkey
  rw [Committable, hop] at hready
  obtain ⟨hrow, hversion⟩ := hready
  rw [← hopKey]
  refine keeps_versioned hkey (fun _ now hfree => deleteStamp_ok hfree now) hrow hversion
    fun _ _ h₁ _ hr => ?_
  rw [hkey, lift_ok_bind]
  refine .bind (updatePartitionMaxDelete_keeps _ _) ?_ ?_
  · rintro _ h₂ - ⟨hr', -⟩
    have hr₂ := hr.trans hr'
    rw [← hr₂.rows key (.inl hrow)] at hrow
    refine commitLwt_keeps (hm.stable hr₂) hkey hrow rfl rfl (fun hflag => by cases hflag) ?_
    exact fun committed image hpending hstands =>
      hstands.settle hpending rfl (by rw [memberImage, hop]; rfl)
  · rintro _ _ - ⟨-, ⟨⟩⟩

theorem commitSingleOperation_keeps (timestamp) : Commits txns content₀ p j members
      (commitSingleOperation cfg (txns j).id timestamp op preparedItem) h := by
  unfold commitSingleOperation
  cases hop : op.op with
  | put keyInfo item condition => exact commitPut_keeps hm hkey hop timestamp
  | delete keyInfo opKey condition => exact commitDelete_keeps hm hkey hop timestamp
  | update keyInfo opKey actions maps condition => exact commitUpdate_keeps hm hkey hop timestamp
  | conditionCheck keyInfo opKey condition =>
    have hopKey : op.key = opKey := by rw [TransactOp.key, hop]; rfl
    have hready := hm.head hkey
    rw [Committable, hop] at hready
    rw [← hopKey]
    exact commitConditionCheck_keeps hm hkey hready (by rw [memberImage, hop])

end

theorem commitAll_keeps (hm : Committing (txns j) members h) (timestamp) :
    Commits txns content₀ p j [] (commitAll cfg (txns j).id timestamp members) h := by
  induction members generalizing h with
  | nil => exact fun h' hr _ => ⟨rfl, hm.stable hr⟩
  | cons member members ih =>
    obtain ⟨op, preparedItem⟩ := member
    obtain ⟨key, hkey⟩ := (txns j).addressed op (hm.ready _ (.head _)).1
    refine .bind (commitSingleOperation_keeps hm hkey timestamp) ?_ ?_
    · rintro _ h₁ - ⟨-, hm₁⟩
      exact ih hm₁
    · rintro _ _ - ⟨⟨⟩, -⟩

end

end ExtendDb.Cassandra
