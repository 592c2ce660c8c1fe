import ExtendDb.Cassandra.Database
import ExtendDb.Storage.RowSelection
import ExtendDb.Theory.LastWrite

/-!
# Index rows of one item

The index statements that the writes of one item issue, and the index rows they leave behind
whatever order they arrive in.
-/

namespace ExtendDb.Cassandra

open Fallible LastWrite List Function Option OrdMap

structure SyncIndex where
  keySchema : List KeySchemaElement
  baseKeySchema : List KeySchemaElement
  attrDefs : List AttributeDefinition
  projection : Projection
  declared : ∀ ks ∈ keySchema ++ baseKeySchema, (declaredType attrDefs ks.attributeName).isSome = true

structure IndexRowKey where
  pk : String
  basePk : String
  sks : List (Option SortKeyValue)
  baseSks : List (Option SortKeyValue)
deriving DecidableEq

def sameIndexRow (old new : Item) (indexKs baseKs : List KeySchemaElement) : Bool :=
  (indexKs ++ baseKs).all fun ks =>
    get? old ks.attributeName = get? new ks.attributeName

section

variable (bd : BigDecimalCrate) (base64 : Base64Engine)

def sortKeyColumn (item : Item) (info : String × ScalarAttributeType) :
    Except StorageError (Option SortKeyValue) :=
  match get? item info.1 with
  | some v => (parseSk bd v info.2).map some
  | none => .ok none

def indexRowKey (idx : SyncIndex) (item : Item) : Except StorageError IndexRowKey := do
  let pk ← compositePkToText base64 item idx.keySchema
  let basePk ← compositePkToText base64 item idx.baseKeySchema
  let sks ← (allSortKeyInfo idx.keySchema idx.attrDefs).mapM (sortKeyColumn bd item)
  let baseSks ← (allSortKeyInfo idx.baseKeySchema idx.attrDefs).mapM (sortKeyColumn bd item)
  pure ⟨pk, basePk, sks, baseSks⟩

/-- The statements of one index for a write that replaces an image. -/
def syncIndexAt (idx : SyncIndex) (old new : Option Item) (stamp : Int) :
    Except StorageError (List (Stamped IndexRowKey Item)) := do
  let oldIndexed := old.filter (itemHasIndexKeys · idx.keySchema)
  let newIndexed := new.filter (itemHasIndexKeys · idx.keySchema)
  let sameRow := match oldIndexed, newIndexed with
    | some old, some new => sameIndexRow old new idx.keySchema idx.baseKeySchema
    | _, _ => false
  let deleted ← match oldIndexed with
    | some old =>
      if sameRow then pure [] else do
        let key ← indexRowKey bd base64 idx old
        pure [⟨key, stamp, none⟩]
    | none => pure []
  let inserted ← match newIndexed with
    | some new => do
      let key ← indexRowKey bd base64 idx new
      pure [⟨key, stamp, some (projectItemForIndex new idx.keySchema idx.baseKeySchema
        idx.projection)⟩]
    | none => pure []
  pure (deleted ++ inserted)

def indexRow (idx : SyncIndex) (image : Option Item) : Option (IndexRowKey × Item) :=
  (image.filter (itemHasIndexKeys · idx.keySchema)).bind fun item =>
    match indexRowKey bd base64 idx item with
    | .ok key => some (key, projectItemForIndex item idx.keySchema idx.baseKeySchema idx.projection)
    | .error _ => none

end

/-! ### Writes of the item -/

/-- The row of the item: its image and version, or the version that was deleted and the timestamp of
the claim it was deleted under. -/
structure BaseRow where
  image : Option Item
  version : Option Int
  deleted : Option Int
  claim : Option Int
deriving DecidableEq

def BaseRow.absent : BaseRow := ⟨none, none, none, none⟩

inductive BaseWrite where
  /-- `occ_write` without a claim, at a clock reading. -/
  | write (now : Int) (new : Item)
  /-- `occ_write` under a TTL claim. -/
  | claimed (mutationTimestamp : Int) (new : Item)
  | delete (now : Int)
  /-- The batch of `delete_item` under a TTL claim. -/
  | claimedDelete (mutationTimestamp : Int)
deriving DecidableEq

def BaseWrite.new : BaseWrite → Option Item
  | .write _ new | .claimed _ new => some new
  | .delete _ | .claimedDelete _ => none

structure CommittedWrite where
  row : BaseRow
  stamp : Int
  statements : List (Stamped IndexRowKey Item)

section

variable (bd : BigDecimalCrate) (base64 : Base64Engine) (idx : SyncIndex)

/-- A write whose index statements cannot be built sends none. -/
def issuedStatements (old new : Option Item) (stamp : Int) : List (Stamped IndexRowKey Item) :=
  match syncIndexAt bd base64 idx old new stamp with
  | .ok statements => statements
  | .error _ => []

def commitWrite (row : BaseRow) : BaseWrite → Except StorageError CommittedWrite
  | .write now new => do
    let version ← nextRowVersionAt row.version now
    pure ⟨⟨some new, some version, none, none⟩, version,
      issuedStatements bd base64 idx row.image (some new) version⟩
  -- the batch's timestamp is the claim's, also for the index statements
  | .claimed mutationTimestamp new => do
    let version ← nextRowVersionAt row.version mutationTimestamp
    pure ⟨⟨some new, some version, none, none⟩, version,
      issuedStatements bd base64 idx row.image (some new) mutationTimestamp⟩
  | .delete now => do
    let stamp ← deleteStamp row.version now
    pure ⟨⟨none, none, row.version, none⟩, stamp,
      issuedStatements bd base64 idx row.image none stamp⟩
  -- only the queue entries carry the stamp, the tombstones have the batch's timestamp
  | .claimedDelete mutationTimestamp => do
    let stamp ← nextRowVersionAt row.version mutationTimestamp
    pure ⟨⟨none, none, row.version, some mutationTimestamp⟩, stamp,
      issuedStatements bd base64 idx row.image none mutationTimestamp⟩

/-- An image whose keys have their declared types and whose numbers are in normal form. -/
structure ValidImage (item : Item) : Prop where
  base : validateItemKeys item idx.baseKeySchema idx.attrDefs = .ok ()
  index : itemHasIndexKeys item idx.keySchema = true →
    validateItemKeys item idx.keySchema idx.attrDefs = .ok ()
  normal : ∀ e ∈ item, NormalKeyValue e.2

/-- What the writes of a history have in common: a claim and a delete need the row, and the clock of
a write that creates the row again is past the deleted version plus one. -/
def BaseWrite.Follows (row : BaseRow) : BaseWrite → Prop
  | .write now _ => row.image = none → ∀ v, row.deleted = some v → v + 1 < now
  | .claimed _ _ | .delete _ | .claimedDelete _ => row.image.isSome = true

/-- A claim's timestamp is past the version of the row, a write that creates the row again is past
the claim it was deleted under, and the version of a row deleted without one is a clock reading. -/
def BaseWrite.Steady (row : BaseRow) : BaseWrite → Prop
  | .write now _ => row.image = none → ∀ claim, row.claim = some claim → claim < now
  | .claimed mutationTimestamp _ | .claimedDelete mutationTimestamp =>
    ∀ v, row.version = some v → v < mutationTimestamp
  | .delete _ => ∀ v, row.version = some v → clockVersionFloor ≤ v

/-- The histories of the item whose writes all meet a condition: the row, the stamps, the latest
first, and the index statements issued. -/
inductive WriteHistory (P : BaseRow → BaseWrite → Prop) :
    BaseRow → List Int → List (Stamped IndexRowKey Item) → Prop where
  | absent : WriteHistory P .absent [] []
  | commit {row stamps statements w c} (h : WriteHistory P row stamps statements)
      (hvalid : ∀ item ∈ w.new, ValidImage idx item) (hfollows : w.Follows row)
      (hcondition : P row w) (hcommit : commitWrite bd base64 idx row w = .ok c) :
      WriteHistory P c.row (c.stamp :: stamps) (c.statements ++ statements)

end

/-! ### Row keys -/

variable {bd : BigDecimalCrate} {base64 : Base64Engine} {idx : SyncIndex}

section

theorem eq_of_sameKeyValue {v w} (hnv : NormalKeyValue v) (hnw : NormalKeyValue w)
    (h : SameKeyValue v w) : v = w := by
  cases v <;> cases w <;> simp only [SameKeyValue] at h
  · rw [h]
  · rw [IsNormal.eq_of_numberValue_eq (hnv _ rfl) (hnw _ rfl) h]
  · rw [h]

theorem parseSk_eq_iff (hbd : bd.Documented) {ty v w} (hv : ty.matches v = true)
    (hw : ty.matches w = true) (hnv : NormalKeyValue v) (hnw : NormalKeyValue w) :
    ∃ a b, parseSk bd v ty = .ok a ∧ parseSk bd w ty = .ok b ∧ (a = b ↔ v = w) := by
  cases ty with
  | s | b =>
    cases v <;> cases hv
    cases w <;> cases hw
    exact ⟨_, _, rfl, rfl, by simp⟩
  | n =>
    cases v <;> cases hv
    cases w <;> cases hw
    rename_i x y
    obtain ⟨a, hpa, hsa, ha⟩ := hbd.parse_numberValue (hnv x rfl)
    obtain ⟨b, hpb, hsb, hb⟩ := hbd.parse_numberValue (hnw y rfl)
    refine ⟨.n a, .n b, by simp [parseSk, hpa], by simp [parseSk, hpb], fun h => ?_, fun h => ?_⟩
    · have hab : a = b := by injection h
      rw [IsNormal.eq_of_numberValue_eq (hnv x rfl) (hnw y rfl) (by rw [ha, hb, hab])]
    · cases h
      rw [some.inj (hpa.symm.trans hpb)]

def AgreeOn (elements : List KeySchemaElement) (old new : Item) : Prop :=
  ∀ ks ∈ elements, get? old ks.attributeName = get? new ks.attributeName

theorem agreeOn_iff_hash_range {keySchema old new} : AgreeOn keySchema old new ↔
      AgreeOn (hashKeyElements keySchema) old new ∧ AgreeOn (rangeKeyElements keySchema) old new := by
  constructor
  · intro h
    exact ⟨fun ks hks => h ks (mem_of_mem_filter hks), fun ks hks => h ks (mem_of_mem_filter hks)⟩
  rintro ⟨hhash, hrange⟩ ks hks
  cases hrole : ks.keyType with
  | hash => exact hhash ks (mem_filter.mpr ⟨hks, by simp [hrole]⟩)
  | range => exact hrange ks (mem_filter.mpr ⟨hks, by simp [hrole]⟩)

variable {keySchema : List KeySchemaElement} {attrDefs : List AttributeDefinition} {old new : Item}

section

variable (hdeclared : ∀ ks ∈ keySchema, (declaredType attrDefs ks.attributeName).isSome = true)
  (hold : validateItemKeys old keySchema attrDefs = .ok ())
  (hnew : validateItemKeys new keySchema attrDefs = .ok ())
  (hnormal : ∀ e ∈ old, NormalKeyValue e.2) (hnormal' : ∀ e ∈ new, NormalKeyValue e.2)
include hdeclared hold hnew hnormal hnormal'

theorem partitionText_eq_iff (hbase64 : Injective base64.encode) :
    ∃ t t', compositePkToText base64 old keySchema = .ok t ∧
      compositePkToText base64 new keySchema = .ok t' ∧
      (t = t' ↔ AgreeOn (hashKeyElements keySchema) old new) := by
  obtain ⟨t, t', ht, ht', heq⟩ := compositePkToText_eq_iff base64 hbase64 keySchema attrDefs
    (fun ks hks => hdeclared ks (mem_of_mem_filter hks)) old new hold hnew hnormal hnormal'
  refine ⟨t, t', ht, ht', heq.trans ⟨fun h ks hks => ?_, fun h ks hks => ?_⟩⟩
  · obtain ⟨v, v', hv, hv', hsame⟩ := h ks hks
    have heq : v = v' := eq_of_sameKeyValue (hnormal _ (mem_of_get? hv))
      (hnormal' _ (mem_of_get? hv')) hsame
    rw [hv, hv', heq]
  · obtain ⟨ty, hty⟩ := isSome_iff_exists.mp (hdeclared ks (mem_of_mem_filter hks))
    obtain ⟨v, hv, hmatch⟩ := validateItemKeys_ok hold (mem_of_mem_filter hks) hty
    refine ⟨v, v, hv, (h ks hks).symm.trans hv, ?_⟩
    cases ty <;> cases v <;> first | exact rfl | cases hmatch

theorem sortKeyColumns_eq_iff (hbd : bd.Documented) :
    ∃ cs cs', (allSortKeyInfo keySchema attrDefs).mapM (sortKeyColumn bd old) = .ok cs ∧
      (allSortKeyInfo keySchema attrDefs).mapM (sortKeyColumn bd new) = .ok cs' ∧
      (cs = cs' ↔ AgreeOn (rangeKeyElements keySchema) old new) := by
  have hcolumn : ∀ info ∈ allSortKeyInfo keySchema attrDefs, ∃ a b,
      sortKeyColumn bd old info = .ok a ∧ sortKeyColumn bd new info = .ok b ∧
        (a = b ↔ get? old info.1 = get? new info.1) := by
    rintro ⟨name, ty⟩ hinfo
    obtain ⟨ks, hks, rfl, hty⟩ := mem_allSortKeyInfo.mp hinfo
    obtain ⟨v, hv, hmatch⟩ := validateItemKeys_ok hold (mem_of_mem_filter hks) hty
    obtain ⟨w, hw, hmatch'⟩ := validateItemKeys_ok hnew (mem_of_mem_filter hks) hty
    obtain ⟨a, b, ha, hb, hab⟩ := parseSk_eq_iff hbd hmatch hmatch'
      (hnormal _ (mem_of_get? hv)) (hnormal' _ (mem_of_get? hw))
    refine ⟨some a, some b, by simp [sortKeyColumn, hv, ha, Except.map],
      by simp [sortKeyColumn, hw, hb, Except.map], ?_⟩
    rw [hv, hw, some_inj, some_inj, hab]
  obtain ⟨cs, cs', hcs, hcs', heq⟩ := mapM_agree_iff (forall₂_same.mpr hcolumn)
  refine ⟨cs, cs', hcs, hcs', heq.trans ⟨fun h ks hks => ?_, fun h info hinfo => ?_⟩⟩
  · obtain ⟨ty, hty⟩ := isSome_iff_exists.mp (hdeclared ks (mem_of_mem_filter hks))
    exact h (ks.attributeName, ty) (mem_allSortKeyInfo.mpr ⟨ks, hks, rfl, hty⟩)
  · obtain ⟨ks, hks, hname, -⟩ := mem_allSortKeyInfo.mp hinfo
    rw [← hname]
    exact h ks hks

end

theorem sameIndexRow_iff {indexKs baseKs} : sameIndexRow old new indexKs baseKs = true ↔
      AgreeOn indexKs old new ∧ AgreeOn baseKs old new := by
  simp [sameIndexRow, AgreeOn]

section

variable (hbd : bd.Documented) (hbase64 : Injective base64.encode)
include hbd hbase64

/-- Two indexed images have one row key exactly when `same_index_row` says so. -/
theorem indexRowKey_eq_iff (hold : ValidImage idx old) (hnew : ValidImage idx new)
    (holdKeys : itemHasIndexKeys old idx.keySchema = true)
    (hnewKeys : itemHasIndexKeys new idx.keySchema = true) :
    ∃ k k', indexRowKey bd base64 idx old = .ok k ∧ indexRowKey bd base64 idx new = .ok k' ∧
      (k = k' ↔ sameIndexRow old new idx.keySchema idx.baseKeySchema = true) := by
  have hindex : ∀ ks ∈ idx.keySchema, (declaredType idx.attrDefs ks.attributeName).isSome = true :=
    fun ks hks => idx.declared ks (mem_append_left _ hks)
  have hbase : ∀ ks ∈ idx.baseKeySchema,
      (declaredType idx.attrDefs ks.attributeName).isSome = true :=
    fun ks hks => idx.declared ks (mem_append_right _ hks)
  obtain ⟨t, t', ht, ht', hpk⟩ := partitionText_eq_iff hindex (hold.index holdKeys)
    (hnew.index hnewKeys) hold.normal hnew.normal hbase64
  obtain ⟨u, u', hu, hu', hbasePk⟩ := partitionText_eq_iff hbase hold.base hnew.base
    hold.normal hnew.normal hbase64
  obtain ⟨cs, cs', hcs, hcs', hsks⟩ := sortKeyColumns_eq_iff hindex (hold.index holdKeys)
    (hnew.index hnewKeys) hold.normal hnew.normal hbd
  obtain ⟨ds, ds', hds, hds', hbaseSks⟩ := sortKeyColumns_eq_iff hbase hold.base hnew.base
    hold.normal hnew.normal hbd
  refine ⟨⟨t, u, cs, ds⟩, ⟨t', u', cs', ds'⟩, ?_, ?_, ?_⟩
  · rw [indexRowKey, ht, hu, hcs, hds]
    rfl
  · rw [indexRowKey, ht', hu', hcs', hds']
    rfl
  · rw [IndexRowKey.mk.injEq, sameIndexRow_iff, @agreeOn_iff_hash_range idx.keySchema,
    @agreeOn_iff_hash_range idx.baseKeySchema]
    tauto

theorem indexRowKey_ok
    (h : ValidImage idx new) (hkeys : itemHasIndexKeys new idx.keySchema = true) :
    ∃ k, indexRowKey bd base64 idx new = .ok k := by
  obtain ⟨k, _, hk, -, -⟩ := indexRowKey_eq_iff hbd hbase64 h h hkeys hkeys
  exact ⟨k, hk⟩

theorem syncIndexAt_eq_moveRow {old new} (hold : ∀ item ∈ old, ValidImage idx item)
    (hnew : ∀ item ∈ new, ValidImage idx item) (stamp) :
    syncIndexAt bd base64 idx old new stamp =
      .ok (moveRow (indexRow bd base64 idx old) (indexRow bd base64 idx new) stamp) := by
  have hvalid {image : Option Item} {item : Item} (h : ∀ item ∈ image, ValidImage idx item)
      (heq : image.filter (itemHasIndexKeys · idx.keySchema) = some item) :
      ValidImage idx item ∧ itemHasIndexKeys item idx.keySchema = true := by
    obtain ⟨hmem, hkeys⟩ := filter_eq_some_iff.mp heq
    exact ⟨h item hmem, hkeys⟩
  unfold syncIndexAt indexRow
  cases hoi : old.filter (itemHasIndexKeys · idx.keySchema) with
  | none =>
    cases hni : new.filter (itemHasIndexKeys · idx.keySchema) with
    | none => rfl
    | some n =>
      obtain ⟨hn, hnkeys⟩ := hvalid hnew hni
      obtain ⟨k, hk⟩ := indexRowKey_ok hbd hbase64 hn hnkeys
      simp only [bind_some, hk]
      rfl
  | some o =>
    obtain ⟨ho, hokeys⟩ := hvalid hold hoi
    cases hni : new.filter (itemHasIndexKeys · idx.keySchema) with
    | none =>
      obtain ⟨k, hk⟩ := indexRowKey_ok hbd hbase64 ho hokeys
      simp only [bind_some, hk]
      rfl
    | some n =>
      obtain ⟨hn, hnkeys⟩ := hvalid hnew hni
      -- `same_index_row` compares values, the table compares keys
      obtain ⟨k, k', hk, hk', heq⟩ := indexRowKey_eq_iff hbd hbase64 ho hn hokeys hnkeys
      simp only [bind_some, hk, hk', moveRow]
      by_cases hsame : sameIndexRow o n idx.keySchema idx.baseKeySchema = true
      · rw [if_pos hsame, if_pos (heq.mpr hsame)]
        rfl
      · rw [if_neg hsame, if_neg fun h => hsame (heq.mp h)]
        rfl

theorem issuedStatements_eq_moveRow {old new} (hold : ∀ item ∈ old, ValidImage idx item)
    (hnew : ∀ item ∈ new, ValidImage idx item) (stamp) :
    issuedStatements bd base64 idx old new stamp =
      moveRow (indexRow bd base64 idx old) (indexRow bd base64 idx new) stamp := by
  rw [issuedStatements, syncIndexAt_eq_moveRow hbd hbase64 hold hnew]

end

end

/-! ### Histories -/

section

/-- The stamp that the deletion of the row has. -/
def BaseRow.Removed (row : BaseRow) (stamp : Int) : Prop :=
  row.claim = some stamp ∨ ∃ v, row.deleted = some v ∧ v + 1 = stamp

/-- What holds along a history of steady writes. -/
structure HistoryInvariant (bd : BigDecimalCrate) (base64 : Base64Engine) (idx : SyncIndex)
    (row : BaseRow) (stamps : List Int) (statements : List (Stamped IndexRowKey Item)) : Prop where
  decreasing : stamps.Pairwise (· > ·)
  versioned : row.image.isSome = row.version.isSome
  below : ∀ v, row.version = some v → ∀ x ∈ stamps, x ≤ v
  past : row.image = none → stamps = [] ∨ ∃ bound, row.Removed bound ∧ ∀ x ∈ stamps, x ≤ bound
  valid : ∀ item ∈ row.image, ValidImage idx item
  stamped : ∀ w ∈ statements, w.stamp ∈ stamps
  settled : ∀ k, Settled statements k (rowAt (indexRow bd base64 idx row.image) k)

variable {row : BaseRow} {stamps : List Int} {statements : List (Stamped IndexRowKey Item)}

theorem HistoryInvariant.absent : HistoryInvariant bd base64 idx .absent [] [] where
  decreasing := List.Pairwise.nil
  versioned := rfl
  below v hv := by cases hv
  past _ := Or.inl rfl
  valid item hitem := by cases hitem
  stamped w hw := by cases hw
  settled k := Or.inl ⟨rfl, fun w hw => by cases hw⟩

theorem HistoryInvariant.lt_nextRowVersionAt
    (h : HistoryInvariant bd base64 idx row stamps statements) {now version}
    (hversion : nextRowVersionAt row.version now = .ok version)
    (hcreate : row.image = none → ∀ stamp, row.Removed stamp → stamp < now) :
    ∀ x ∈ stamps, x < version := by
  intro x hx
  cases hrow : row.version with
  | none =>
    rw [hrow] at hversion
    cases hversion
    have himage : row.image = none := by
      have := h.versioned
      rw [hrow] at this
      simpa using this
    rcases h.past himage with hnil | ⟨bound, hremoved, hle⟩
    · rw [hnil] at hx
      cases hx
    · exact Int.lt_of_le_of_lt (hle x hx) (hcreate himage bound hremoved)
  | some v =>
    rw [hrow, nextRowVersionAt] at hversion
    split at hversion
    · cases hversion
    · cases hversion
      have hxv := h.below v hrow x hx
      omega

variable {c : CommittedWrite}

theorem HistoryInvariant.move (h : HistoryInvariant bd base64 idx row stamps statements)
    (hlt : ∀ x ∈ stamps, x < c.stamp)
    (hstatements : c.statements =
      moveRow (indexRow bd base64 idx row.image) (indexRow bd base64 idx c.row.image) c.stamp)
    (hvalid : ∀ item ∈ c.row.image, ValidImage idx item)
    (hversioned : c.row.image.isSome = c.row.version.isSome)
    (hversion : ∀ v, c.row.version = some v → v = c.stamp)
    (hdeleted : c.row.image = none → c.row.Removed c.stamp) :
    HistoryInvariant bd base64 idx c.row (c.stamp :: stamps) (c.statements ++ statements) where
  decreasing := pairwise_cons.mpr ⟨hlt, h.decreasing⟩
  versioned := hversioned
  below v hv x hx := by
    rw [hversion v hv]
    rcases mem_cons.mp hx with rfl | hx
    · exact Int.le_refl _
    · exact Int.le_of_lt (hlt x hx)
  past himage := by
    refine .inr ⟨c.stamp, hdeleted himage, fun x hx => ?_⟩
    rcases mem_cons.mp hx with rfl | hx
    · exact Int.le_refl _
    · exact Int.le_of_lt (hlt x hx)
  valid := hvalid
  stamped w hw := by
    rcases mem_append.mp hw with hw | hw
    · rw [hstatements] at hw
      rw [stamp_of_mem_moveRow hw]
      exact .head _
    · exact .tail _ (h.stamped w hw)
  settled k := by
    rw [hstatements]
    exact settled_moveRow (fun w hw => hlt _ (h.stamped w hw)) h.settled k

theorem HistoryInvariant.nextRowVersionAt_claim
    (h : HistoryInvariant bd base64 idx row stamps statements) {timestamp version}
    (himage : row.image.isSome = true) (hpast : ∀ v, row.version = some v → v < timestamp)
    (hversion : nextRowVersionAt row.version timestamp = .ok version) : version = timestamp := by
  obtain ⟨v, hv⟩ := isSome_iff_exists.mp (h.versioned.symm.trans himage)
  have hlt := hpast v hv
  rw [hv, nextRowVersionAt] at hversion
  split at hversion
  · cases hversion
  · cases hversion
    omega

theorem HistoryInvariant.commit (hbd : bd.Documented) (hbase64 : Injective base64.encode)
    (h : HistoryInvariant bd base64 idx row stamps statements) {w}
    (hvalid : ∀ item ∈ w.new, ValidImage idx item) (hfollows : w.Follows row)
    (hsteady : w.Steady row) (hcommit : commitWrite bd base64 idx row w = .ok c) :
    HistoryInvariant bd base64 idx c.row (c.stamp :: stamps) (c.statements ++ statements) := by
  cases w with
  | write now new =>
    obtain ⟨version, hversion, hc⟩ := unbind hcommit
    cases hc
    refine h.move (h.lt_nextRowVersionAt hversion fun himage stamp hremoved => ?_)
      (issuedStatements_eq_moveRow hbd hbase64 h.valid hvalid version) hvalid rfl ?_ ?_
    · rcases hremoved with hclaim | ⟨v, hv, rfl⟩
      · exact hsteady himage stamp hclaim
      · exact hfollows himage v hv
    · rintro v hv
      exact (some.inj hv).symm
    · rintro ⟨⟩
  | claimed mutationTimestamp new =>
    obtain ⟨version, hversion, hc⟩ := unbind hcommit
    cases hc
    -- the claim's timestamp is past the version, so the version stored is the timestamp
    obtain rfl := h.nextRowVersionAt_claim hfollows hsteady hversion
    refine h.move (h.lt_nextRowVersionAt hversion fun himage => ?_)
      (issuedStatements_eq_moveRow hbd hbase64 h.valid hvalid version) hvalid rfl ?_ ?_
    · exact absurd (himage ▸ hfollows : (none : Option Item).isSome = true) Bool.false_ne_true
    · rintro v hv
      exact (some.inj hv).symm
    · rintro ⟨⟩
  | delete now =>
    obtain ⟨stamp, hstamp, hc⟩ := unbind hcommit
    cases hc
    obtain ⟨v, hv⟩ := isSome_iff_exists.mp (h.versioned.symm.trans hfollows)
    have hnext : stamp = v + 1 := by
      rw [hv, deleteStamp, if_pos (hsteady v hv)] at hstamp
      split at hstamp
      · cases hstamp
      · cases hstamp
        rfl
    refine h.move (fun x hx => ?_) (issuedStatements_eq_moveRow hbd hbase64 h.valid hvalid stamp)
      hvalid rfl ?_ fun _ => .inr ⟨v, hv, hnext.symm⟩
    · have hxv := h.below v hv x hx
      change x < stamp
      omega
    · rintro _ ⟨⟩
  | claimedDelete mutationTimestamp =>
    obtain ⟨stamp, hstamp, hc⟩ := unbind hcommit
    cases hc
    obtain rfl := h.nextRowVersionAt_claim hfollows hsteady hstamp
    refine h.move (h.lt_nextRowVersionAt hstamp fun himage => ?_)
      (issuedStatements_eq_moveRow hbd hbase64 h.valid hvalid stamp) hvalid rfl ?_ fun _ => .inl rfl
    · exact absurd (himage ▸ hfollows : (none : Option Item).isSome = true) Bool.false_ne_true
    · rintro _ ⟨⟩

/-- The stamps of a history of steady writes strictly increase, and in whatever order the index
statements arrive, the index ends with the row of the last image and no other. -/
theorem index_rows_converge (bd : BigDecimalCrate) (hbd : bd.Documented) (base64 : Base64Engine)
    (hbase64 : Injective base64.encode) (idx : SyncIndex) (row : BaseRow)
    (stamps : List Int) (statements : List (Stamped IndexRowKey Item))
    (h : WriteHistory bd base64 idx BaseWrite.Steady row stamps statements) :
    stamps.Pairwise (· > ·) ∧ ∀ arrived, arrived.Perm statements → ∀ k,
      rowAfter arrived k = rowAt (indexRow bd base64 idx row.image) k := by
  have hinv : HistoryInvariant bd base64 idx row stamps statements := by
    induction h with
    | absent => exact .absent
    | commit _ hvalid hfollows hsteady hcommit ih =>
      exact ih.commit hbd hbase64 hvalid hfollows hsteady hcommit
  exact ⟨hinv.decreasing, fun arrived hperm k => (hinv.settled k).rowAfter_eq hperm⟩

end

/-! ### Two histories -/

def sampleIndex : SyncIndex where
  keySchema := [⟨"g", .hash⟩]
  baseKeySchema := [⟨"p", .hash⟩]
  attrDefs := [⟨"p", .s⟩, ⟨"g", .s⟩]
  projection := ⟨.all, none⟩
  declared := by decide

def sampleImage (g : String) : Item := [("g", .s g), ("p", .s "x")]

def sampleKey (g : String) : IndexRowKey := ⟨g, "x", [], []⟩

theorem sampleImage_valid (g) : ValidImage sampleIndex (sampleImage g) where
  base := rfl
  index _ := rfl
  normal := by simp [sampleImage, NormalKeyValue]

/-- The item is created, moved and deleted under claims, created again and deleted. -/
theorem index_rows_converge_claimed : ∃ row stamps statements,
      WriteHistory .reference .standard sampleIndex BaseWrite.Steady row stamps statements ∧
      stamps.length = 5 ∧ stamps.Pairwise (· > ·) ∧
      ∀ arrived, arrived.Perm statements → ∀ k, rowAfter arrived k = none := by
  have habsent : WriteHistory .reference .standard sampleIndex BaseWrite.Steady .absent [] [] :=
    .absent
  have hcreated := WriteHistory.commit (w := .write clockVersionFloor (sampleImage "a")) habsent
    (fun item hitem => by cases hitem; exact sampleImage_valid "a") (fun _ v hv => by cases hv)
    (fun _ v hv => by cases hv) rfl
  have hmoved := WriteHistory.commit (w := .claimed (clockVersionFloor + 5) (sampleImage "b"))
    hcreated (fun item hitem => by cases hitem; exact sampleImage_valid "b") rfl
    (fun v hv => by cases hv; decide) rfl
  have hremoved := WriteHistory.commit (w := .claimedDelete (clockVersionFloor + 9))
    hmoved (fun item hitem => by cases hitem) rfl (fun v hv => by cases hv; decide) rfl
  have hagain := WriteHistory.commit (w := .write (clockVersionFloor + 10) (sampleImage "b"))
    hremoved (fun item hitem => by cases hitem; exact sampleImage_valid "b")
    (fun _ v hv => by cases hv; decide) (fun _ v hv => by cases hv; decide) rfl
  have hdeleted := WriteHistory.commit (w := .delete 0)
    hagain (fun item hitem => by cases hitem) rfl (fun v hv => by cases hv; decide) rfl
  obtain ⟨hdecreasing, hrows⟩ := index_rows_converge .reference
    BigDecimalCrate.reference_documented .standard
    Base64Engine.standard_documented.encode_injective sampleIndex _ _ _ hdeleted
  exact ⟨_, _, _, hdeleted, rfl, hdecreasing, hrows⟩

/-- The version of the row is ahead of the clock of the host that writes it under a claim: the old
index row stays. -/
theorem index_row_left_behind : ∃ row stamps statements,
      WriteHistory .reference .standard sampleIndex (fun _ _ => True) row stamps statements ∧
      row.image = some (sampleImage "b") ∧
      ∀ arrived, arrived.Perm statements →
        rowAfter arrived (sampleKey "a") = some (sampleImage "a") ∧
        rowAt (indexRow .reference .standard sampleIndex row.image) (sampleKey "a") = none := by
  have habsent : WriteHistory .reference .standard sampleIndex (fun _ _ => True) .absent [] [] :=
    .absent
  have hcreated := WriteHistory.commit (w := .write (clockVersionFloor + 10) (sampleImage "a"))
    habsent (fun item hitem => by cases hitem; exact sampleImage_valid "a")
    (fun _ v hv => by cases hv) trivial rfl
  have hmoved := WriteHistory.commit (w := .claimed (clockVersionFloor + 5) (sampleImage "b"))
    hcreated (fun item hitem => by cases hitem; exact sampleImage_valid "b") rfl trivial rfl
  refine ⟨_, _, _, hmoved, rfl, fun arrived hperm => ⟨?_, by decide⟩⟩
  refine Settled.rowAfter_eq (.inr ⟨⟨sampleKey "a", clockVersionFloor + 10,
    some (sampleImage "a")⟩, by decide, rfl, rfl, ?_⟩) hperm
  decide

end ExtendDb.Cassandra
