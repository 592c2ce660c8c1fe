import ExtendDb.Cassandra.Processes

/-!
# What reads show

GetItem, Query and Scan return `item_data` of the rows they read and look at no other column.
-/

namespace ExtendDb.Cassandra

open Interaction Interaction.Program List History Database Statement

/-! ## Reads -/

def getItem (key : RowKey) : Session TransactionError (Option Item) := do
  let row ← selectRow key
  pure (row.bind (·.itemData))

def queryItems : List Row → Except StorageError (List Item)
  | [] => .ok []
  | row :: rows =>
    match row.itemData with
    | some item => (queryItems rows).map (item :: ·)
    | none => .error (.internal "query parse: item_data")

def scanItems (rows : List Row) : List Item := rows.filterMap (·.itemData)

/-! ## Items of committed writes -/

section

variable {π : Type} {db₀ : Database} {h h' : History π}

def Event.Stores (event : Event π) (committed : List Uuid) (key : RowKey) (item : Item) : Prop :=
  event.statement.applied event.answer = true ∧
    ((∃ guard version, event.statement = .lwt key guard (.write item version)) ∨
      ∃ txn ∈ committed, ∃ version timestamp,
        event.statement = .lwt key (.preparedBy txn) (.commit item version timestamp))

def CommittedAt (db₀ : Database) (h : History π) (key : RowKey) (item : Item) : Prop :=
  (db₀.rows key).itemData = some item ∨ ∃ event ∈ h.performed, event.Stores h.committed key item

/-- Rows that no PREPARE planted hold committed items, and an entry is COMMITTING only if its
transaction was set to it. -/
structure HoldsCommitted (db₀ : Database) (h : History π) : Prop where
  rows : ∀ key item, ¬ (h.db.rows key).Flagged → (h.db.rows key).itemData = some item →
    CommittedAt db₀ h key item
  ledger : ∀ txn, (h.db.ledger txn).state = some .committing → txn ∈ h.committed

theorem committed_subset (hp : h.performed <+: h'.performed) : h.committed ⊆ h'.committed :=
  (hp.sublist.filterMap _).subset

theorem CommittedAt.mono {key item} (hc : CommittedAt db₀ h key item)
    (hp : h.performed <+: h'.performed) : CommittedAt db₀ h' key item := by
  rcases hc with hinit | ⟨event, hevent, happlied, hstores⟩
  · exact .inl hinit
  · refine .inr ⟨event, hp.subset hevent, happlied, hstores.imp_right ?_⟩
    rintro ⟨txn, htxn, hstatement⟩
    exact ⟨txn, committed_subset hp htxn, hstatement⟩

/-! ## Statements -/

def Statement.CommitsNothing : Statement → Prop
  | .lwt _ _ (.commit _ _ _) | .insertLedger _ .committing _ _ => False
  | _ => True

def Statement.CommitsOnly (committed : List Uuid) : Statement → Prop
  | .lwt _ guard (.commit _ _ _) => ∃ txn ∈ committed, guard = .preparedBy txn
  | .insertLedger txn .committing _ _ => txn ∈ committed
  | _ => True

variable {s : Statement}

theorem Statement.CommitsNothing.commitsOnly (hs : s.CommitsNothing) (committed) :
    s.CommitsOnly committed := by
  cases s with
  | lwt key guard mutation => cases mutation <;> first | exact hs.elim | exact trivial
  | insertLedger t state => cases state <;> first | exact hs.elim | exact trivial
  | _ => exact trivial

theorem Statement.OwnedBy.commitsOnly {txn committed} (hs : s.OwnedBy txn) (hmem : txn ∈ committed) :
    s.CommitsOnly committed := by
  cases s with
  | lwt key guard mutation =>
    cases mutation with
    | commit item version timestamp =>
      cases guard <;> first | exact hs.elim | skip
      obtain rfl := hs
      exact ⟨_, hmem, rfl⟩
    | _ => exact trivial
  | insertLedger t state =>
    obtain rfl : t = txn := hs
    cases state <;> first | exact hmem | exact trivial
  | _ => exact trivial

theorem HoldsCommitted.mutate (hh : HoldsCommitted db₀ h) (p) {key guard mutation}
    (hs : (Statement.lwt key guard mutation).CommitsOnly h.committed)
    (happlied : (h.db.perform (.lwt key guard mutation)).1 = true) {item}
    (hflag : ¬ (mutation.apply (h.db.rows key)).Flagged)
    (hitem : (mutation.apply (h.db.rows key)).itemData = some item) :
    CommittedAt db₀ (exec p (.lwt key guard mutation) h).2 key item := by
  have hp := performed_exec p (.lwt key guard mutation) h
  have hmem : (⟨p, .lwt key guard mutation, (h.db.perform (.lwt key guard mutation)).1⟩ : Event π) ∈
      (exec p (.lwt key guard mutation) h).2.performed := by
    exact mem_append_right _ (.head _)
  cases mutation with
  | plant planted txn timestamp => exact (hflag rfl).elim
  | mark txn timestamp | clear => exact (hh.rows key item hflag hitem).mono hp
  | delete => cases hitem
  | write written version =>
    cases hitem
    exact .inr ⟨_, hmem, happlied, .inl ⟨guard, version, rfl⟩⟩
  | commit written version timestamp =>
    cases hitem
    obtain ⟨txn, htxn, rfl⟩ := hs
    exact .inr ⟨_, hmem, happlied, .inr ⟨txn, committed_subset hp htxn, version, timestamp, rfl⟩⟩

theorem HoldsCommitted.exec (hh : HoldsCommitted db₀ h) (p) (hs : s.CommitsOnly h.committed) :
    HoldsCommitted db₀ (exec p s h).2 := by
  have hp := performed_exec p s h
  constructor
  · -- only a lightweight transaction changes rows, and only the one it names
    intro key item hflag hitem
    rw [exec_db] at hflag hitem
    by_cases hkeeps : s.KeepsRows
    · rw [rows_perform hkeeps] at hflag hitem
      exact (hh.rows key item hflag hitem).mono hp
    cases s with
    | lwt key' guard mutation =>
      rcases h.db.perform_lwt key' guard mutation with ⟨-, hperform⟩ | ⟨-, hperform⟩
      · by_cases hkey : key = key'
        · subst hkey
          rw [hperform] at hflag hitem
          simp only [rows_mutate_self] at hflag hitem
          exact hh.mutate p hs (by rw [hperform]) hflag hitem
        · rw [hperform] at hflag hitem
          simp only [rows_mutate_of_ne hkey] at hflag hitem
          exact (hh.rows key item hflag hitem).mono hp
      · rw [hperform] at hflag hitem
        exact (hh.rows key item hflag hitem).mono hp
    | _ => exact (hkeeps trivial).elim
  · -- an entry becomes COMMITTING by the statement that the history counts as the commit
    intro txn hstate
    rw [exec_db] at hstate
    by_cases hkeeps : s.KeepsLedger
    · rw [ledger_perform hkeeps] at hstate
      exact committed_subset hp (hh.ledger txn hstate)
    cases s with
    | insertLedger t state startedAt itemsBlob =>
      simp only [perform] at hstate
      split at hstate
      · by_cases ht : txn = t
        · subst ht
          simp only [ledger_setLedger_self, Option.some.injEq] at hstate
          subst hstate
          exact committed_subset hp hs
        · simp only [ledger_setLedger_of_ne ht] at hstate
          exact committed_subset hp (hh.ledger txn hstate)
      · exact committed_subset hp (hh.ledger txn hstate)
    | updateLedgerState t state =>
      simp only [perform] at hstate
      by_cases ht : txn = t
      · subst ht
        simp only [ledger_setLedger_self, Option.some.injEq] at hstate
        subst hstate
        rw [committed_exec_committing]
        exact mem_append_right _ (.head _)
      · simp only [ledger_setLedger_of_ne ht] at hstate
        exact committed_subset hp (hh.ledger txn hstate)
    | updateLedgerBlob t itemsBlob =>
      simp only [perform] at hstate
      by_cases ht : txn = t
      · subst ht
        simp only [ledger_setLedger_self] at hstate
        exact committed_subset hp (hh.ledger txn hstate)
      · simp only [ledger_setLedger_of_ne ht] at hstate
        exact committed_subset hp (hh.ledger txn hstate)
    | deleteLedger t =>
      simp only [perform] at hstate
      by_cases ht : txn = t
      · subst ht
        simp only [ledger_setLedger_self] at hstate
        cases hstate
      · simp only [ledger_setLedger_of_ne ht] at hstate
        exact committed_subset hp (hh.ledger txn hstate)
    | _ => exact (hkeeps trivial).elim

/-! ## Programs -/

/-- Processes rely on the record to grow, and on nothing else. -/
def appending : Discipline Statement (History π) where
  rely h h' := h.performed <+: h'.performed
  guarantee h h' := h.performed <+: h'.performed
  admits _ _ := True
  rely_refl _ := prefix_rfl
  rely_trans := List.IsPrefix.trans

variable {p : π} {ε α β : Type} {cfg : CassandraEngine} {txnId : Uuid} {program : Session ε α}

theorem shows_outline (ho : program.Outline CommitsNothing fun _ => True) :
    program.Upholds (exec p) (HoldsCommitted db₀) appending (fun _ _ => True) h :=
  (Upholds.of_outline (J := fun _ => True) ho
    (fun s h₁ hs _ hh _ => ⟨performed_exec p s h₁, hh.exec p (hs.commitsOnly _), trivial⟩)
    (fun _ _ _ _ _ => trivial) trivial).mono fun _ _ _ => trivial

theorem shows_then {next : α → Session ε β} (ho : program.Outline CommitsNothing fun _ => True)
    (hnext : ∀ a h', (next a).Upholds (exec p) (HoldsCommitted db₀) appending
      (fun _ _ => True) h') :
    (program >>= next).Upholds (exec p) (HoldsCommitted db₀) appending (fun _ _ => True) h :=
  Upholds.bind (shows_outline ho) (fun a h' _ _ => hnext a h') fun _ _ _ _ => trivial

theorem shows_committed
    (ho : program.Outline (OwnedBy txnId) fun _ => True) (hmem : txnId ∈ h.committed) :
    program.Upholds (exec p) (HoldsCommitted db₀) appending (fun _ _ => True) h :=
  (Upholds.of_outline (J := fun h => txnId ∈ h.committed) ho
    (fun s h₁ hs hJ hh _ => ⟨performed_exec p s h₁, hh.exec p (hs.commitsOnly hJ),
      committed_subset (performed_exec p s h₁) hJ⟩)
    (fun _ _ hr _ hJ => committed_subset hr hJ) hmem).mono fun _ _ _ => trivial

theorem commitsNothing_of_neutral (ho : program.Outline Neutral fun _ => True) :
    program.Outline CommitsNothing (fun _ => True) := by
  refine ho.mono (fun s hs => ?_) fun _ => id
  cases s with
  | lwt => exact hs.rows.elim
  | insertLedger => exact hs.ledger.elim
  | _ => exact trivial

theorem PreparesFor.commitsNothing {timestamp ops} (hs : PreparesFor cfg txnId timestamp ops s) :
    s.CommitsNothing := by
  obtain ⟨op, -, hs⟩ := hs
  cases hs <;> exact trivial

theorem undoRow_commitsNothing (key) : (do
      let deleted ← lwt databaseError key (.plantedBy txnId) .delete
      if deleted then pure ()
      else do
        let _ ← lwt databaseError key (.preparedBy txnId) .clear
        pure () : Session TransactionError Unit).Outline CommitsNothing
      (fun _ => True) := by
  refine outline_bind (ask_outline trivial) fun deleted => ?_
  split
  · exact trivial
  · exact outline_bind (ask_outline trivial) fun _ => trivial

theorem executeRollbackPhase_commitsNothing (ops) :
    (executeRollbackPhase cfg txnId ops).Outline CommitsNothing (fun _ => True) := by
  refine outline_bind (ask_outline trivial) fun _ => outline_bind ?_ fun _ => ask_outline trivial
  induction ops with
  | nil => exact trivial
  | cons op ops ih =>
    refine outline_bind ?_ fun _ => ih
    refine outline_bind (fetchItemForTransaction_outline (fun _ => trivial) _ _) ?_
    rintro (_ | item)
    · exact trivial
    · exact outline_bind (lift_outline _).forget undoRow_commitsNothing

theorem executeCommitPhase_shows {timestamp} (ops preparedItems) :
    (executeCommitPhase cfg txnId timestamp ops preparedItems).Upholds (exec p)
      (HoldsCommitted db₀) appending (fun _ _ => True) h := by
  intro h₁ _ hh _
  refine ⟨performed_exec .., hh.exec p trivial,
    shows_committed ((executeCommitPhase_owned ops preparedItems).2 (.ok ())) ?_⟩
  rw [committed_exec_committing]
  exact mem_append_right _ (.head _)

theorem Transaction.program_shows (txn : Transaction cfg) :
    txn.program.Upholds (exec p) (HoldsCommitted db₀) appending (fun _ _ => True) h := by
  unfold program transactWriteItems
  cases txn.ops with
  | nil => exact fun _ _ _ => trivial
  | cons first rest =>
    dsimp only
    split
    · exact fun _ _ _ => trivial
    refine shows_then (commitsNothing_of_neutral (reserveToken_outline _ _)) fun _ _ => ?_
    refine shows_then (lift_outline _).forget fun ledgerOps _ => ?_
    refine shows_then (outline_bind (ask_outline trivial) fun applied => ?_) fun _ _ => ?_
    · split <;> exact trivial
    have hprepare : (executePreparePhase cfg txn.id txn.startedAt (first :: rest)).Outline
        CommitsNothing (fun _ => True) :=
      (executePreparePhase_outline _).mono (fun _ hs => hs.commitsNothing) fun _ _ => trivial
    refine shows_then hprepare.attempt.forget ?_
    rintro (reasons | computed) _
    · refine shows_then (outline_bind (executeRollbackPhase_commitsNothing _).attempt.forget
        fun _ => trivial) fun _ _ => ?_
      exact shows_then (commitsNothing_of_neutral (releaseToken_outline _).forget)
        fun _ _ => fun _ _ _ => trivial
    · exact shows_then (ask_outline trivial) fun _ _ => executeCommitPhase_shows _ _

theorem recoverRollbackAll_commitsNothing (ops) :
    (recoverRollbackAll cfg txnId ops).Outline CommitsNothing (fun _ => True) := by
  induction ops with
  | nil => exact trivial
  | cons op ops ih =>
    refine outline_bind ?_ fun _ => ih
    exact outline_bind (lift_outline _).forget undoRow_commitsNothing

theorem Database.perform_selectLedger (db : Database) (txn) :
    (db.perform (.selectLedger txn)).1 = (none : Option LedgerRow) ∨
      (db.perform (.selectLedger txn)).1 = some (db.ledger txn) := by
  by_cases habsent : db.ledger txn = .absent
  · exact .inl (if_pos habsent)
  · exact .inr (if_neg habsent)

theorem recoverTransaction_shows :
    (recoverTransaction cfg txnId).Upholds (exec p) (HoldsCommitted db₀) appending
      (fun _ _ => True) h := by
  intro h₁ _ hh _
  have hh' : HoldsCommitted db₀ (exec p (.selectLedger txnId) h₁).2 := hh.exec p trivial
  refine ⟨performed_exec .., hh', ?_⟩
  have howned := (@recoverTransaction_owned cfg txnId).2 (exec p (.selectLedger txnId) h₁).1
  by_cases hstate : (h₁.db.ledger txnId).state = some .committing
  · exact shows_committed howned (committed_subset (performed_exec ..) (hh.ledger txnId hstate))
  · refine shows_outline ?_
    rw [exec_fst]
    rcases h₁.db.perform_selectLedger txnId with hselect | hselect
    · rw [hselect]
      exact trivial
    · rw [hselect]
      rcases hrow : h₁.db.ledger txnId with ⟨_ | state, _ | startedAt, _ | itemsBlob⟩
      all_goals try exact trivial
      rw [hrow] at hstate
      have hne : state ≠ .committing := fun heq => hstate (by rw [heq])
      change Outline _ _ (if state = .committing then do
          recoverCommitAll cfg txnId startedAt itemsBlob
          deleteLedgerEntry txnId
        else do
          recoverRollbackAll cfg txnId itemsBlob
          deleteLedgerEntry txnId : Session TransactionError Unit)
      rw [if_neg hne]
      exact outline_bind (recoverRollbackAll_commitsNothing itemsBlob) fun _ => ask_outline trivial

theorem Statement.SingleItem.commitsNothing (hs : s.SingleItem) : s.CommitsNothing := by
  cases s with
  | lwt key guard mutation =>
    cases mutation <;> cases guard <;> first | exact hs.elim | exact trivial
  | insertLedger => exact hs.elim
  | _ => exact trivial

theorem Role.program_shows (role : Role cfg) :
    role.program.Upholds (exec p) (HoldsCommitted db₀) appending (fun _ _ => True) h := by
  have hsingle {program : Session WriteError Unit} (ho : program.Outline SingleItem fun _ => True) :
      program.Upholds (exec p) (HoldsCommitted db₀) appending (fun _ _ => True) h :=
    shows_outline (ho.mono (fun _ hs => hs.commitsNothing) fun _ => id)
  cases role with
  | transact txn => exact .mapError txn.program_shows fun _ _ _ => trivial
  | recover t => exact .mapError recoverTransaction_shows fun _ _ _ => trivial
  | putItem => exact hsingle (putItemImpl_outline ..)
  | updateItem => exact hsingle (updateItemImpl_outline ..)
  | deleteItem => exact hsingle (deleteItemImpl_outline ..)

end

/-! ## Runs -/

section

variable {ι : Type} {cfg : CassandraEngine} {roles : ι → Role cfg} {db : Database}

def readContracts (db : Database) : Contracts ι Statement (History ι) WriteError Unit where
  inv := HoldsCommitted db
  discipline _ := appending
  before _ _ := True
  after _ _ _ := True

theorem holdsCommitted_steps [DecidableEq ι]
    (hledger : ∀ txn, (db.ledger txn).state ≠ some .committing) (schedule : List ι) :
    HoldsCommitted db ((begin roles db).steps exec schedule).data := by
  have hstart : HoldsCommitted db (begin roles db).data :=
    ⟨fun _ _ _ hitem => .inl hitem, fun txn hstate => (hledger txn hstate).elim⟩
  have hsound : (begin roles db).Sound exec (readContracts db) :=
    ⟨hstart, fun i => ⟨trivial, fun _ _ _ => (roles i).program_shows⟩⟩
  have hcompatible : Config.Compatible exec (readContracts db)
      (fun (_ : Config ι Answer WriteError Unit (History ι)) (_ : ι) => True) :=
    ⟨fun _ _ _ => trivial, fun _ _ _ _ _ => trivial, fun _ _ _ _ _ _ hg => hg,
      fun _ _ _ _ _ => trivial⟩
  have hmeets : ∀ (c : Config ι Answer WriteError Unit (History ι)) (schedule : List ι),
      c.Meets exec (fun _ _ => True) schedule := by
    intro c schedule
    induction schedule generalizing c with
    | nil => exact trivial
    | cons i schedule ih => exact ⟨trivial, ih _⟩
  exact (hsound.steps hcompatible (hmeets _ schedule)).keeps

theorem mem_queryItems {rows items} (h : queryItems rows = .ok items) {item} (hitem : item ∈ items) :
    ∃ row ∈ rows, row.itemData = some item := by
  induction rows generalizing items with
  | nil =>
    cases h
    cases hitem
  | cons row rows ih =>
    rw [queryItems] at h
    cases hdata : row.itemData with
    | none =>
      rw [hdata] at h
      cases h
    | some first =>
      rw [hdata] at h
      cases hrest : queryItems rows with
      | error e =>
        rw [hrest] at h
        cases h
      | ok later =>
        rw [hrest] at h
        cases h
        rcases mem_cons.mp hitem with rfl | hitem
        · exact ⟨row, .head _, hdata⟩
        · obtain ⟨row', hrow', hdata'⟩ := ih hrest hitem
          exact ⟨row', .tail _ hrow', hdata'⟩

def moment [DecidableEq ι] (roles : ι → Role cfg) (db : Database) (schedule : List ι) (n : ℕ) :
    History ι :=
  ((begin roles db).steps exec (schedule.take n)).data

theorem performed_steps [DecidableEq ι] (c : Config ι Answer WriteError Unit (History ι)) (schedule) :
    c.data.performed <+: (c.steps exec schedule).data.performed := by
  induction schedule generalizing c with
  | nil => exact prefix_rfl
  | cons i schedule ih =>
    refine .trans ?_ (ih (c.step exec i))
    unfold Config.step
    cases (c.procs i).program with
    | done result => exact prefix_rfl
    | call s next => exact performed_exec i s c.data

theorem performed_moment [DecidableEq ι] (schedule n) : (moment roles db schedule n).performed <+:
      ((begin roles db).steps exec schedule).data.performed := by
  have hsplit : (begin roles db).steps exec schedule =
      ((begin roles db).steps exec (schedule.take n)).steps exec (schedule.drop n) := by
    rw [Config.steps, Config.steps, Config.steps, ← foldl_append, take_append_drop]
  rw [hsplit]
  exact performed_steps _ _

end

/-! ## A transaction that has planted its row -/

def putsC : Unit → Role plainEngine := fun _ => .transact putC

end ExtendDb.Cassandra
