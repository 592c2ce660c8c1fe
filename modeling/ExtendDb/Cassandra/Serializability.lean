import ExtendDb.Cassandra.RollbackPhase

/-!
# Serializability of TransactWriteItems

Concurrent transactions that are ready when they are set to COMMITTING, and meet no foreign marker
while they are undone, have the effect of the successful ones run one after another in the order in
which they were set to COMMITTING.
-/

namespace ExtendDb.Cassandra

open Interaction Interaction.Program Fallible List History Database

/-! ## The coordinator's program -/

variable {cfg : CassandraEngine}

section

variable {ι π : Type} {txns : ι → Transaction cfg} {content₀ : Content} {p : π} {j : ι}
  {h h' : History π} {ε α : Type}

def Transaction.program (txn : Transaction cfg) : Session TransactionError Unit :=
  transactWriteItems cfg txn.id txn.startedAt txn.ops txn.idempotency

structure Idle (txn : Transaction cfg) (h : History π) : Prop where
  notCommitted : txn.id ∉ h.committed
  unmarked : ∀ key, ¬ (h.db.rows key).PreparedBy txn.id

/-- A transaction that succeeds was set to COMMITTING and leaves no marker.  One that fails was not,
and leaves no planted row. -/
def Finished (txn : Transaction cfg) (result : Except TransactionError Unit) (h : History π) : Prop :=
  match result with
  | .ok _ => txn.id ∈ h.committed ∧ ∀ key, ¬ (h.db.rows key).PreparedBy txn.id
  | .error _ => txn.id ∉ h.committed ∧
      ∀ key, (h.db.rows key).PreparedBy txn.id → ¬ (h.db.rows key).Flagged

variable {txn : Transaction cfg}

theorem Idle.stable (hi : Idle txn h) (hr : Unaffected txn.id h h') : Idle txn h' :=
  ⟨fun hmem => hi.notCommitted (hr.committed.mp hmem), fun key hrow => hi.unmarked key
    (hr.prepared hrow)⟩

theorem Idle.preparing (hi : Idle txn h) : Preparing txn h :=
  ⟨hi.notCommitted, fun key hrow => absurd hrow (hi.unmarked key)⟩

theorem Idle.finished (hi : Idle txn h) (e) : Finished txn (.error e) h :=
  ⟨hi.notCommitted, fun key hrow => absurd hrow (hi.unmarked key)⟩

theorem Finished.stable {result} (hf : Finished txn result h) (hr : Unaffected txn.id h h') :
    Finished txn result h' := by
  cases result with
  | ok _ => exact ⟨hr.committed.mpr hf.1, fun key hrow => hf.2 key (hr.prepared hrow)⟩
  | error e =>
    refine ⟨fun hmem => hf.1 (hr.committed.mp hmem), fun key hrow => ?_⟩
    have heq := hr.rows key (.inr hrow)
    rw [heq] at hrow ⊢
    exact hf.2 key hrow

theorem keeps_outline {Q} {program : Session ε α} (ho : program.Outline Statement.Neutral Q) :
    Keeps txns content₀ p j (fun result h' => Q result ∧ Unaffected (txns j).id h h') program h := by
  refine .of_outline ho (fun s h₁ hs hr hc _ => ?_) (fun _ _ hr _ hr₁ => hr₁.trans hr) (.refl h)
  exact ⟨⟨s, hs.ownedBy, rfl⟩, hc.of_rows_eq p hs.notCommitting (rows_perform hs.rows _),
    hr.trans (hs.unaffected p)⟩

theorem keeps_ledger {s failed} {Q : Except ε s.Answer → History π → Prop}
    (howned : s.OwnedBy (txns j).id) (hrows : s.KeepsRows) (hs : s.NotCommitting)
    (hQ : ∀ h₁ h₂, Unaffected (txns j).id h h₁ → h₂.db = (h₁.db.perform s).2 →
      h₂.db.rows = h₁.db.rows → h₂.committed = h₁.committed →
      ∀ h₃, Unaffected (txns j).id h₂ h₃ → Q (.ok (h₁.db.perform s).1) h₃) :
    Keeps txns content₀ p j Q (ask failed s) h :=
  keeps_ask howned fun h₁ hr hc _ => ⟨hc.of_rows_eq p hs (rows_perform hrows _),
    fun h₃ hr' _ => hQ h₁ _ hr rfl (rows_perform hrows _) (committed_exec hs p h₁) h₃ hr'⟩

theorem Preparing.of_eq (hp : Preparing txn h) (hrows : h'.db.rows = h.db.rows)
    (hcommitted : h'.committed = h.committed) : Preparing txn h' := by
  refine ⟨hcommitted ▸ hp.notCommitted, ?_⟩
  rw [hrows]
  exact hp.rows

theorem reserveToken_outline (accountId idempotency) :
    (reserveToken accountId idempotency).Outline Statement.Neutral (fun _ => True) := by
  cases idempotency with
  | none => exact trivial
  | some idempotency =>
    rw [reserveToken]
    split
    · exact trivial
    refine .bind (ask_outline ⟨trivial, trivial⟩) ?_ fun _ _ => trivial
    rintro (_ | stored) -
    · refine .bind (ask_outline ⟨trivial, trivial⟩) (fun applied _ => ?_) fun _ _ => trivial
      split
      · exact trivial
      · refine .bind (ask_outline ⟨trivial, trivial⟩) ?_ fun _ _ => trivial
        rintro (_ | stored) - <;> exact trivial
    · exact trivial

theorem releaseToken_outline (idempotency) :
    (releaseToken idempotency).Outline Statement.Neutral (fun result => result = .ok ()) := by
  cases idempotency with
  | none => exact rfl
  | some idempotency =>
    refine .bind (.attempt (ask_outline ⟨trivial, trivial⟩)) (fun _ _ => rfl) ?_
    rintro e ⟨_, ⟨⟩, -⟩

variable {computed : List (Option Item × Option Item)} {ledgerOps : List LedgerOp}

theorem forall₂_of_filled {R : TransactOp → Option Item → Prop} {ops}
    (hlength : ledgerOps.length = computed.length)
    (h : List.Forall₂ (fun op ledgerOp => R op ledgerOp.preCommitItemData) ops
      (ledgerOps.zipWith LedgerOp.filled computed)) :
    List.Forall₂ (fun op images => R op images.2) ops computed := by
  induction computed generalizing ops ledgerOps with
  | nil =>
    rw [zipWith_nil_right] at h
    cases h
    exact .nil
  | cons images computed ih =>
    cases ledgerOps with
    | nil => cases hlength
    | cons ledgerOp ledgerOps =>
      cases h with
      | cons himages h => exact .cons himages (ih (Nat.succ.inj hlength) h)

theorem Preparing.committing (hp : Preparing txn h)
    (hready : List.Forall₂ (fun op images => txn.RowReady h.db op images.2) txn.ops computed)
    (hprepared : List.Forall₂ (Prepared cfg) txn.ops computed) (hrows : h'.db.rows = h.db.rows)
    (hcommitted : txn.id ∈ h'.committed) :
    Committing txn (txn.ops.zip (computed.map (·.1))) h' := by
  have hlength : txn.ops.length ≤ (computed.map (·.1)).length := by
    rw [length_map, hready.length_eq]
  have hfst : (txn.ops.zip (computed.map (·.1))).map Prod.fst = txn.ops := map_fst_zip hlength
  refine ⟨hcommitted, ?_, fun m hmem => ?_, fun key hrow => ?_⟩
  · have hmap : (txn.ops.zip (computed.map (·.1))).map (fun m => rowKey cfg m.1 m.1.key) =
        txn.ops.map (fun op => rowKey cfg op op.key) := by
      conv_rhs => rw [← hfst, map_map]
      rfl
    rw [hmap]
    exact txn.distinct
  · have hop : m.1 ∈ txn.ops := (of_mem_zip hmem).1
    rw [zip_map_right] at hmem
    obtain ⟨⟨op, images⟩, hzip, rfl⟩ := mem_map.mp hmem
    refine ⟨hop, fun key hkey => ?_⟩
    rw [hrows]
    refine (forall₂_zip hready hzip key hkey).committable (forall₂_zip hprepared hzip) hkey
      (fun hrow hflag => ?_) (txn.keepsKey op hop)
    obtain ⟨op', hop', hkey', hitem⟩ := hp.rows key hrow
    obtain rfl : op' = op := inj_on_of_nodup_map txn.distinct hop' hop (hkey'.trans hkey.symm)
    exact hitem hflag
  · rw [hrows] at hrow
    obtain ⟨op, hop, hkey, -⟩ := hp.rows key hrow
    rw [← hfst] at hop
    obtain ⟨m, hmem, rfl⟩ := mem_map.mp hop
    exact ⟨m, hmem, hkey⟩

theorem writeLedgerEntry_keeps (hi : Idle (txns j) h) (ledgerOps) : Keeps txns content₀ p j
      (fun result h' => match result with
        | .ok _ => Preparing (txns j) h'
        | .error e => Finished (txns j) (.error e) h')
      (writeLedgerEntry (txns j).id (txns j).startedAt ledgerOps) h := by
  refine .bind (Q := fun result h' => (∃ applied, result = .ok applied) ∧ Idle (txns j) h')
    (keeps_ledger rfl trivial trivial fun h₁ h₂ hr _ hrows hcommitted h₃ hr' => ?_) ?_ ?_
  · have hi₁ := hi.stable hr
    refine ⟨⟨_, rfl⟩, .stable ⟨hcommitted ▸ hi₁.notCommitted, ?_⟩ hr'⟩
    rw [hrows]
    exact hi₁.unmarked
  · rintro applied h₁ - ⟨-, hi₁⟩
    split
    · exact fun h₂ hr _ => (hi₁.stable hr).preparing
    · exact fun h₂ hr _ => (hi₁.stable hr).finished _
  · rintro _ _ - ⟨⟨_, ⟨⟩⟩, -⟩

variable (hid : Function.Injective fun i => (txns i).id)
include hid

theorem executeCommitPhase_keeps (hp : Preparing (txns j) h)
    (hlength : ledgerOps.length = computed.length)
    (hblob : (h.db.ledger (txns j).id).itemsBlob = some (ledgerOps.zipWith LedgerOp.filled computed))
    (hprepared : List.Forall₂ (Prepared cfg) (txns j).ops computed) :
    Keeps txns content₀ p j (Finished (txns j))
      (executeCommitPhase cfg (txns j).id (txns j).startedAt (txns j).ops (computed.map (·.1))) h := by
  refine .bind (Q := fun result h' => result = .ok () ∧
    Committing (txns j) ((txns j).ops.zip (computed.map (·.1))) h')
    (keeps_ask rfl fun h₁ hr hc hcommit => ?_) ?_ ?_
  · have hp₁ := hp.stable hr
    rw [← hr.ledger] at hblob
    have hready := forall₂_of_filled (R := (txns j).RowReady h₁.db) hlength (hcommit _ hblob)
    have hcommitted : (txns j).id ∈
        (exec p (.updateLedgerState (txns j).id .committing) h₁).2.committed := by
      rw [committed_exec_committing]
      exact mem_append_right _ (mem_singleton_self _)
    have hm : Committing (txns j) ((txns j).ops.zip (computed.map (·.1)))
        (exec p (.updateLedgerState (txns j).id .committing) h₁).2 :=
      hp₁.committing hready hprepared rfl hcommitted
    refine ⟨hc.committing hid p hp₁.notCommitted fun op hop key hkey => ?_, fun h₂ hr' _ =>
      ⟨rfl, hm.stable hr'⟩⟩
    · rw [← map_fst_zip hprepared.length_eq.le] at hop
      obtain ⟨⟨op, images⟩, hzip, rfl⟩ := mem_map.mp hop
      have hmember := forall₂_zip hready hzip key hkey
      exact ⟨images.2, hmember, hmember.runs (forall₂_zip hprepared hzip)⟩
  · rintro _ h₁ - ⟨-, hm⟩
    refine .bind (commitAll_keeps hm _) ?_ ?_
    · rintro _ h₂ - ⟨-, hm₂⟩
      refine keeps_ledger rfl trivial trivial fun h₃ h₄ hr _ hrows hcommitted h₅ hr' => ?_
      suffices hf : Finished (txns j) (.ok ()) h₄ from hf.stable hr'
      refine ⟨?_, fun key hrow => ?_⟩
      · rw [hcommitted]
        exact (hm₂.stable hr).committed
      · rw [hrows] at hrow
        obtain ⟨m, hmem, -⟩ := (hm₂.stable hr).rows key hrow
        cases hmem
    · rintro _ _ - ⟨⟨⟩, -⟩
  · rintro _ _ - ⟨⟨⟩, -⟩

omit hid in
theorem executeRollbackPhase_keeps (hp : Preparing (txns j) h) : Keeps txns content₀ p j
      (fun result h' => result = .ok () ∧ ∀ e, Finished (txns j) (.error e) h')
      (executeRollbackPhase cfg (txns j).id (txns j).ops) h := by
  refine .bind (Q := fun result h' => result = .ok () ∧ Undoing (txns j) (txns j).ops h')
    (keeps_ledger rfl trivial trivial fun h₁ h₂ hr hdb hrows hcommitted h₃ hr' => ?_) ?_ ?_
  · have hp₂ := (hp.stable hr).of_eq hrows hcommitted
    refine ⟨rfl, .stable ⟨hp₂.notCommitted, ?_, fun key hrow hflag => ?_⟩ hr'⟩
    · rw [hdb]
      exact congrArg LedgerRow.state ledger_setLedger_self
    · obtain ⟨op, hop, hkey, hitem⟩ := hp₂.rows key hrow
      exact ⟨by rw [hitem hflag]; rfl, op, hop, hkey⟩
  · rintro _ h₁ - ⟨-, hu⟩
    refine .bind (rollbackAll_keeps hu fun _ => id) ?_ ?_
    · rintro _ h₂ - ⟨-, hu₂⟩
      refine keeps_ledger rfl trivial trivial fun h₃ h₄ hr _ hrows hcommitted h₅ hr' => ?_
      have hu₃ := hu₂.stable hr
      suffices hf : ∀ e, Finished (txns j) (.error e) h₄ from ⟨rfl, fun e => (hf e).stable hr'⟩
      refine fun e => ⟨?_, fun key hrow hflag => ?_⟩
      · rw [hcommitted]
        exact hu₃.notCommitted
      · rw [hrows] at hrow hflag
        obtain ⟨-, op, hmem, -⟩ := hu₃.rows key hrow hflag
        cases hmem
    · rintro _ _ - ⟨⟨⟩, -⟩
  · rintro _ _ - ⟨⟨⟩, -⟩

theorem runTransaction_keeps (hi : Idle (txns j) h) : Keeps txns content₀ p j (Finished (txns j))
      (runTransaction cfg (txns j).id (txns j).startedAt (txns j).ops (txns j).idempotency) h := by
  rw [runTransaction]
  cases hops : initialLedgerOps cfg (txns j).ops with
  | error e => exact fun h' hr _ => (hi.stable hr).finished _
  | ok ledgerOps =>
    have hlength : ledgerOps.length = (txns j).ops.length := (mapM_eq_ok.mp hops).length_eq.symm
    rw [lift_ok_bind]
    refine .bind (Q := fun result h' => match result with
      | .ok _ => Preparing (txns j) h'
      | .error e => Finished (txns j) (.error e) h') (writeLedgerEntry_keeps hi ledgerOps) ?_
      fun _ _ _ => id
    intro _ h₁ _ hp
    refine .bind (executePreparePhase_keeps hp).attempt ?_ ?_
    · rintro (reasons | computed) h₂ - ⟨_, ⟨⟩, hresult, hp₂⟩
      · refine .bind (Q := fun result h' => result = .ok () ∧ ∀ e, Finished (txns j) (.error e) h')
          (.bind (executeRollbackPhase_keeps hp₂).attempt ?_ ?_) ?_ ?_
        · rintro _ h₃ - ⟨_, -, -, hf⟩
          exact fun h₄ hr _ => ⟨rfl, fun e => (hf e).stable hr⟩
        · rintro _ _ - ⟨_, ⟨⟩, -⟩
        · rintro _ h₃ - ⟨-, hf⟩
          refine .bind (keeps_outline (releaseToken_outline _)) ?_ ?_
          · rintro _ h₄ - ⟨-, hr⟩
            exact fun h₅ hr' _ => (hf _).stable (hr.trans hr')
          · rintro _ _ - ⟨⟨⟩, -⟩
        · rintro _ _ - ⟨⟨⟩, -⟩
      · have hprepared := hresult computed rfl
        refine .bind (Q := fun result h' => result = .ok () ∧ Preparing (txns j) h' ∧
          (h'.db.ledger (txns j).id).itemsBlob = some (ledgerOps.zipWith .filled computed))
          (keeps_ledger rfl trivial trivial fun h₃ h₄ hr hdb hrows hcommitted h₅ hr' => ?_) ?_ ?_
        · refine ⟨rfl, ((hp₂.stable hr).of_eq hrows hcommitted).stable hr', ?_⟩
          rw [hr'.ledger, hdb]
          exact congrArg LedgerRow.itemsBlob ledger_setLedger_self
        · rintro _ h₃ - ⟨-, hp₃, hblob⟩
          exact executeCommitPhase_keeps hid hp₃ (hlength.trans hprepared.length_eq) hblob hprepared
        · rintro _ _ - ⟨⟨⟩, -⟩
    · rintro _ _ - ⟨_, ⟨⟩, -⟩

theorem program_keeps (hi : Idle (txns j) h) :
    Keeps txns content₀ p j (Finished (txns j)) (txns j).program h := by
  unfold Transaction.program transactWriteItems
  cases hops : (txns j).ops with
  | nil => exact absurd hops (txns j).nonempty
  | cons first rest =>
    dsimp only
    split
    · exact fun h' hr _ => (hi.stable hr).finished _
    refine .bind (keeps_outline (reserveToken_outline _ _)) ?_ ?_
    · rintro _ h₁ - ⟨-, hr⟩
      rw [← hops]
      exact runTransaction_keeps hid (hi.stable hr)
    · rintro e h₁ - ⟨-, hr⟩
      exact (hi.stable hr).finished e

end

/-! ## The system -/

section

variable {ι : Type} (txns : ι → Transaction cfg)

def start (db : Database) : Config ι Statement.Answer TransactionError Unit (History ι) :=
  ⟨fun i => .waiting (txns i).program, ⟨db, []⟩⟩

def ReadyStep (c : Config ι Statement.Answer TransactionError Unit (History ι)) (i : ι) : Prop :=
  match (c.procs i).program with
  | .done _ => True
  | .call s _ => (txns i).Ready s c.data.db

/-- Some serial order of the transactions that succeeded leads from the initial content to the final
one. -/
def Serializable (db : Database) (c : Config ι Statement.Answer TransactionError Unit (History ι)) :
    Prop :=
  ∃ order : List ι, order.Nodup ∧ (∀ i, i ∈ order ↔ (c.procs i).result? = some (.ok ())) ∧
    runSerial txns order db.content = some c.data.db.content

def contracts (content₀ : Content) : Contracts ι Statement (History ι) TransactionError Unit where
  inv := Consistent txns content₀
  discipline j := coordinator txns j j
  before j := Idle (txns j)
  after j := Finished (txns j)

variable {txns} (hid : Function.Injective fun i => (txns i).id)
include hid

theorem unaffected_of_guarantee {i j} (hij : i ≠ j) {h h'}
    (hg : (coordinator txns j j).guarantee h h') : Unaffected (txns i).id h h' := by
  obtain ⟨s, howned, rfl⟩ := hg
  exact howned.unaffected (fun heq => hij (hid heq)) j

theorem contracts_compatible (content₀) :
    Config.Compatible exec (contracts txns content₀) (ReadyStep txns) where
  admits := by
    intro c j s next _ hready hprogram
    rw [ReadyStep, hprogram] at hready
    exact hready
  before := fun hij _ _ hg hi => hi.stable (unaffected_of_guarantee hid hij hg)
  rely := fun _ hij _ _ _ _ hg => unaffected_of_guarantee hid hij hg
  after := fun hij _ _ hg hf => hf.stable (unaffected_of_guarantee hid hij hg)

omit hid in
theorem start_consistent {db}
    (hflags : ∀ key, (db.rows key).Flagged → (db.rows key).preparedTxnId ≠ none)
    (hfresh : ∀ i key, ¬ (db.rows key).PreparedBy (txns i).id) :
    Consistent txns db.content (start txns db).data := by
  refine ⟨hflags, nodup_nil, [], db.content, rfl, rfl, fun key => ?_⟩
  have hnot : ∀ i op, ¬ Pending txns [] key (db.rows key) i op := fun i op hp =>
    hfresh i key hp.prepared
  refine (standsFor_iff_of_not_pending hnot).mpr ?_
  exact (if_neg fun hplanted => hplanted.2.elim fun i => hfresh i key).symm

theorem Consistent.content_eq {content₀} {h : History ι} (hc : Consistent txns content₀ h)
    (hdone : ∀ i, ∃ result, Finished (txns i) result h) :
    ∃ order : List ι, order.Nodup ∧ (∀ i, i ∈ order ↔ (txns i).id ∈ h.committed) ∧
      runSerial txns order content₀ = some h.db.content := by
  obtain ⟨-, hnodup, order, content, horder, hrun, hstands⟩ := hc
  refine ⟨order, ?_, fun i => ?_, ?_⟩
  · rw [horder] at hnodup
    exact hnodup.of_map _
  · rw [horder, mem_map_of_injective hid]
  have hcontent : content = h.db.content := by
    funext key
    by_cases hown : ∃ i, (h.db.rows key).PreparedBy (txns i).id
    · obtain ⟨i, hrow⟩ := hown
      obtain ⟨result, hf⟩ := hdone i
      cases result with
      | ok _ => exact absurd hrow (hf.2 key)
      | error e =>
        rw [(hstands key).settled (not_pending_of_not_committed hf.1 hrow),
          physical_of_not_flagged (hf.2 key hrow)]
        rfl
    · rw [(hstands key).settled fun i op hp => hown ⟨i, hp.prepared⟩]
      exact if_neg fun hplanted => hown hplanted.2
  rw [← hcontent]
  exact hrun

/-- Concurrent transactions that run to their end, each ready for the statements it issues, are
serializable. -/
theorem transactWriteItems_serializable [DecidableEq ι] {db : Database}
    (hflags : ∀ key, (db.rows key).Flagged → (db.rows key).preparedTxnId ≠ none)
    (hfresh : ∀ i key, ¬ (db.rows key).PreparedBy (txns i).id) (schedule : List ι)
    (hready : (start txns db).Meets exec (ReadyStep txns) schedule)
    (hdone : ∀ i, (((start txns db).steps exec schedule).procs i).result?.isSome) :
    Serializable txns db ((start txns db).steps exec schedule) := by
  have hstart : (start txns db).Sound exec (contracts txns db.content) :=
    ⟨start_consistent hflags hfresh, fun i => ⟨⟨not_mem_nil, hfresh i⟩,
      fun h hi _ => program_keeps hid hi⟩⟩
  have hsound := hstart.steps (contracts_compatible hid db.content) hready
  have hfinished : ∀ i result, (((start txns db).steps exec schedule).procs i).result? =
      some result → Finished (txns i) result ((start txns db).steps exec schedule).data :=
    fun i result hresult => (hsound.procs i).result hsound.keeps hresult
  obtain ⟨order, hnodup, horder, hrun⟩ := Consistent.content_eq hid hsound.keeps (fun i => by
    obtain ⟨result, hresult⟩ := Option.isSome_iff_exists.mp (hdone i)
    exact ⟨result, hfinished i result hresult⟩)
  refine ⟨order, hnodup, fun i => (horder i).trans ?_, hrun⟩
  obtain ⟨result, hresult⟩ := Option.isSome_iff_exists.mp (hdone i)
  have hf := hfinished i result hresult
  rw [hresult]
  cases result with
  | ok _ => exact ⟨fun _ => rfl, fun _ => hf.1⟩
  | error e => exact ⟨fun hmem => absurd hmem hf.1, fun h => by cases h⟩

end

/-! ## Two transactions that check each other's rows -/

def plainEngine : CassandraEngine where
  bigDecimal := .reference
  base64 := .standard
  orderText := fun tableId _ => tableId
  validateIndexKeyTypes := fun _ _ => .ok ()
  validateIndexKeyNotEmpty := fun _ _ => .ok ()
  validateIndexKeyLiteralOperands := fun _ _ _ => .ok ()
  validateIndexKeyTypesAfterUpdate := fun _ _ => .ok ()
  validateIndexKeyNotEmptyAfterUpdate := fun _ _ => .ok ()

def plainTable : TableKeyInfo where
  tableName := "t"
  keySchema := [⟨"pk", .hash⟩]
  baseKeySchema := [⟨"pk", .hash⟩]
  attributeDefinitions := [⟨"pk", .s⟩]
  vectorIndexes := []

def plainOp (op : TransactWriteOp) : TransactOp := ⟨"account", "t", op⟩

def plainItem (pk x : String) : Item := [("pk", .s pk), ("x", .s x)]

def plainRow (item : Item) : Row := { Row.absent with itemData := some item, version := some 1 }

def holdsText (x : String) : Condition := fun item => .ok (OrdMap.get? item "x" == some (.s x))

def rowOf (pk : String) : RowKey := ⟨"t", pk, none⟩

def twoRows : Database where
  rows := fun key =>
    if key = rowOf "a" then plainRow (plainItem "a" "0")
    else if key = rowOf "b" then plainRow (plainItem "b" "0") else .absent
  maxDelete := fun _ => none
  ledger := fun _ => .absent
  tokens := fun _ => none
  clock := fun n => 1000000000000001 + n
  readings := 0

theorem twoRows_unmarked (key) :
    (twoRows.rows key).preparedTxnId = none ∧ ¬ (twoRows.rows key).Flagged := by
  simp only [twoRows]
  split
  · exact ⟨rfl, fun h => by cases h⟩
  · split <;> exact ⟨rfl, fun h => by cases h⟩

def checkAndPut (id : Uuid) (checked put : String) (hne : checked ≠ put) :
    Transaction plainEngine where
  id := id
  startedAt := 2000
  ops := [plainOp (.conditionCheck plainTable [("pk", .s checked)] (holdsText "0")),
    plainOp (.put plainTable (plainItem put "1") none)]
  idempotency := none
  nonempty := cons_ne_nil _ _
  addressed := by
    intro op hop
    simp only [mem_cons, not_mem_nil, or_false] at hop
    rcases hop with rfl | rfl
    · exact ⟨rowOf checked, rfl⟩
    · exact ⟨rowOf put, rfl⟩
  distinct := by
    change [Except.ok (rowOf checked), .ok (rowOf put)].Nodup
    simp [rowOf, hne]
  keepsKey := by
    intro op hop keyInfo key actions maps condition heq
    simp only [mem_cons, not_mem_nil, or_false] at hop
    rcases hop with rfl | rfl <;> cases heq

/-- The second checks the row that the first writes. -/
def overlapping : Bool → Transaction plainEngine
  | false => checkAndPut 1 "a" "b" (by decide)
  | true => checkAndPut 2 "b" "c" (by decide)

/-- The first has read the row it checks when the second starts; the second is set to COMMITTING
before the first marks the row it writes, and commits after the first is. -/
def overlapSchedule : List Bool :=
  [false, false] ++ replicate 7 true ++ replicate 4 false ++ replicate 5 true ++ replicate 5 false

theorem overlapping_ready :
    (start overlapping twoRows).Meets exec (ReadyStep overlapping) overlapSchedule := by
  refine ⟨?_, ?_, ?_, ?_, ?_, ?_, ?_, ?_, ?_, ?_, ?_, ?_, ?_, ?_, ?_, ?_, ?_, ?_, ?_, ?_, ?_, ?_, ?_,
    trivial⟩
  all_goals first | exact trivial | (intro h; cases h; done) | rintro _ ⟨⟩
  · refine .cons ?_ (.cons ?_ .nil)
    · rintro _ ⟨⟩
      exact ⟨rfl, .inl rfl, by rintro _ ⟨⟩; rfl, fun h => absurd trivial h, fun h => by cases h⟩
    · rintro _ ⟨⟩
      exact ⟨rfl, rfl, by rintro _ ⟨⟩, fun _ => by decide, fun _ => rfl⟩
  · refine .cons ?_ (.cons ?_ .nil)
    · rintro _ ⟨⟩
      exact ⟨rfl, .inl rfl, by rintro _ ⟨⟩; rfl, fun h => absurd trivial h, fun h => by cases h⟩
    · rintro _ ⟨⟩
      exact ⟨rfl, rfl, by rintro _ ⟨⟩; rfl, fun _ => by decide, fun h => by cases h⟩

theorem transactWriteItems_serializable_overlapping :
    Serializable overlapping twoRows ((start overlapping twoRows).steps exec overlapSchedule) ∧
    ∀ i, (((start overlapping twoRows).steps exec overlapSchedule).procs i).result? =
      some (.ok ()) := by
  have hdone : ∀ i, (((start overlapping twoRows).steps exec overlapSchedule).procs i).result? =
      some (.ok ()) := fun i => by cases i <;> decide +kernel
  refine ⟨transactWriteItems_serializable (fun i j h => ?_)
    (fun key hflag => absurd hflag (twoRows_unmarked key).2)
    (fun _ key hrow => ?_) _ overlapping_ready fun i => by rw [hdone i]; rfl, hdone⟩
  · cases i <;> cases j <;> first | rfl | cases h
  · rw [Row.PreparedBy, (twoRows_unmarked key).1] at hrow
    cases hrow

/-- Each checks the row that the other writes. -/
def skewed : Bool → Transaction plainEngine
  | false => checkAndPut 1 "a" "b" (by decide)
  | true => checkAndPut 2 "b" "a" (by decide)

def skewSchedule : List Bool :=
  [false, false, true, true] ++ replicate 9 false ++ replicate 9 true

/-- Each transaction checks the row that the other writes.  Neither marks the row it checks, so both
succeed, though after either one the other's check fails. -/
theorem transactWriteItems_write_skew :
    (∀ i, (((start skewed twoRows).steps exec skewSchedule).procs i).result? =
      some (.ok ())) ∧
    ¬ Serializable skewed twoRows ((start skewed twoRows).steps exec skewSchedule) := by
  have hdone : ∀ i, (((start skewed twoRows).steps exec skewSchedule).procs i).result? =
      some (.ok ()) := by
    intro i
    cases i <;> decide +kernel
  refine ⟨hdone, ?_⟩
  rintro ⟨order, hnodup, hmem, hrun⟩
  have hperm : order.Perm [false, true] :=
    (perm_ext_iff_of_nodup hnodup (by decide)).mpr (fun i => by
      cases i <;> simp [hmem, hdone])
  obtain ⟨x, y, rfl⟩ := length_eq_two.mp hperm.length_eq
  cases x <;> cases y
  · exact absurd hnodup (by decide)
  · cases hrun.symm.trans (rfl : runSerial skewed [false, true] twoRows.content = none)
  · cases hrun.symm.trans (rfl : runSerial skewed [true, false] twoRows.content = none)
  · exact absurd hnodup (by decide)

end ExtendDb.Cassandra
