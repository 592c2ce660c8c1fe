import ExtendDb.BackupFormat.OrderedRead
import ExtendDb.Validation.RestorableItem

/-!
# Writing a backup

The writer gives every item to the tracker and to the encoder of the current file; a file is closed
with the tracker's range and the encoder's checksums.  The manifest is assembled from the entries.
-/

namespace ExtendDb

open Fallible List Option DataFileEncoder

/-! ## The writer -/

section

variable (crates : BackupCrates)

def trackItem (tracker : Option KeyRangeTracker) (item : Item) :
    Except BackupError (Option KeyRangeTracker) :=
  match tracker with
  | none => .ok none
  | some t => (some <$> t.push crates.bd crates.base64 item).mapError .key

def writeItem (state : Option KeyRangeTracker × DataFileEncoder) (item : Item) :
    Except BackupError (Option KeyRangeTracker × DataFileEncoder) := do
  let tracker ← trackItem crates state.1 item
  let encoder ← state.2.writeItem crates item
  pure (tracker, encoder)

def closeFile (isLast : Bool) (tracker : Option KeyRangeTracker) :
    Option KeyRange × Option KeyRangeTracker :=
  match tracker with
  | none => (none, none)
  | some t => if isLast then (t.finish, none) else (t.nextFile.1, some t.nextFile.2)

def writeFiles : Option KeyRangeTracker → List (String × List Item) →
    Except BackupError (List (DataFileEntry × Bytes))
  | _, [] => .ok []
  | tracker, (key, items) :: rest => do
    let (tracker, encoder) ← items.foldlM (writeItem crates) (tracker, .new)
    let (compressed, checksums) := encoder.finish crates
    let (range, tracker) := closeFile rest.isEmpty tracker
    let others ← writeFiles tracker rest
    pure ((.fromChecksums key checksums range, compressed) :: others)

end

/-- What a manifest holds besides its files. -/
structure ManifestHeader where
  identity : ManifestIdentity
  itemOrder : ItemOrder
  sourceTable : SourceTableSchema

def ManifestHeader.tracker (header : ManifestHeader) : Except BackupError (Option KeyRangeTracker) :=
  match header.itemOrder with
  | .unordered => .ok none
  | .keyOrdered => do
    let order ← (KeyOrder.resolve header.sourceTable.keySchema
      header.sourceTable.attributeDefinitions).mapError (BackupError.key ∘ .format)
    pure (some (.new order))

def totalBytes (entries : List DataFileEntry) : Option Nat :=
  entries.foldlM (fun sum e => if 2 ^ 64 ≤ sum + e.bytes then none else some (sum + e.bytes)) 0

def ManifestHeader.assemble (header : ManifestHeader) (entries : List DataFileEntry) :
    Except BackupError ExtenddbManifest :=
  match totalBytes entries with
  | none => .error (.invalidManifest "data file sizes overflow")
  | some total =>
    if 2 ^ 63 ≤ total then .error (.invalidManifest "data file sizes overflow")
    else .ok
      { formatVersion := currentFormatVersion
        identity := header.identity
        backupSizeBytes := total
        itemOrder := header.itemOrder
        sourceTable := header.sourceTable
        dataFiles := entries }

/-! ## Lines -/

variable {crates : BackupCrates}

def lineValue (crates : BackupCrates) (item : Item) : JsonValue :=
  .object [("Item", .object (serializeEntries crates.base64 item))]

structure WireItem (item : Item) : Prop where
  ascending : OrdMap.Ascending item
  ordered : ∀ e ∈ item, e.2.Everywhere AttributeValue.Ordered
  sets : ∀ e ∈ item, e.2.Everywhere AttributeValue.NonemptySet
  numbers : ∀ e ∈ item, e.2.AllNumbers IsNormal

structure PrintsLine (crates : BackupCrates) (item : Item) : Prop where
  parse : crates.json.parse (crates.json.print (lineValue crates item)) = .ok (lineValue crates item)
  newline : newline ∉ crates.json.print (lineValue crates item)
  fits : (encodeItemLine crates item).length ≤ maxLineBytes

section

variable (hbase64 : crates.base64.Documented)
include hbase64

theorem readAttribute_serialize {done name v}
    (hbefore : ∀ d ∈ done, d.1 < name) (hordered : v.Everywhere AttributeValue.Ordered)
    (hsets : v.Everywhere AttributeValue.NonemptySet) (hnumbers : v.AllNumbers IsNormal) :
    readAttribute crates done (name, serialize crates.base64 v) = .ok (done ++ [(name, v)]) := by
  have hnone : OrdMap.get? done name = none := by
    cases hget : OrdMap.get? done name with
    | none => rfl
    | some w => exact absurd (hbefore _ (OrdMap.mem_of_get? hget)) (lt_irrefl _)
  have hread := (deserialize_serialize crates.base64 hbase64 crates.texts).1 v hordered hsets hnumbers
  simp [readAttribute, hnone, hread, Except.mapError, OrdMap.insert_of_forall_lt v hbefore]

theorem readAttribute_serializeEntries {done rest : Item}
    (hascending : OrdMap.Ascending (done ++ rest)) (hrest : WireItem rest) :
    (serializeEntries crates.base64 rest).foldlM (readAttribute crates) done =
      .ok (done ++ rest) := by
  induction rest generalizing done with
  | nil => simp [serializeEntries]
  | cons e rest ih =>
    obtain ⟨name, v⟩ := e
    have hbefore : ∀ d ∈ done, d.1 < name := by
      intro d hd
      exact (pairwise_append.mp hascending).2.2 d hd (name, v) (.head _)
    have htail : WireItem rest :=
      ⟨(pairwise_cons.mp hrest.ascending).2, fun e he => hrest.ordered e (.tail _ he),
        fun e he => hrest.sets e (.tail _ he),
        fun e he => hrest.numbers e (.tail _ he)⟩
    rw [serializeEntries, foldlM_cons, readAttribute_serialize hbase64 hbefore
      (hrest.ordered _ (.head _)) (hrest.sets _ (.head _))
      (hrest.numbers _ (.head _)), ok_bind,
      ih (by rwa [append_assoc, singleton_append]) htail, append_assoc,
      singleton_append]

theorem parseItemLine_print {item} (hitem : WireItem item) (hprint : PrintsLine crates item) :
    parseItemLine crates (stripTrailingNewline (encodeItemLine crates item)) = .ok item := by
  have hstrip : stripTrailingNewline (encodeItemLine crates item) =
      crates.json.print (lineValue crates item) := by
    simp [stripTrailingNewline, encodeItemLine, lineValue]
  have hread := readAttribute_serializeEntries hbase64 (nil_append item ▸ hitem.ascending) hitem
  rw [hstrip, parseItemLine, hprint.parse, ok_bind]
  exact hread

end

theorem splitLine_append {text} (h : newline ∉ text) (rest) :
    splitLine (text ++ [newline] ++ rest) = (text ++ [newline], rest) := by
  induction text with
  | nil => simp [splitLine]
  | cons b text ih =>
    have hb : b ≠ newline := fun heq => h (heq ▸ mem_cons_self)
    rw [cons_append, cons_append, splitLine, if_neg hb, ih fun hmem => h (.tail _ hmem)]

theorem readCappedLine_line {item} (hprint : PrintsLine crates item) (rest) :
    Inflated.readCappedLine ⟨encodeItemLine crates item ++ rest, none⟩ =
      .ok (encodeItemLine crates item, ⟨rest, none⟩) := by
  have hsplit : splitLine (encodeItemLine crates item ++ rest) = (encodeItemLine crates item, rest) :=
    splitLine_append hprint.newline rest
  have hlast : (encodeItemLine crates item).getLast? = some newline := by simp [encodeItemLine]
  simp [Inflated.readCappedLine, hsplit, Nat.not_lt.mpr hprint.fits]

/-! ## Encoding a file -/

def lines (crates : BackupCrates) (items : List Item) : Bytes := items.flatMap (encodeItemLine crates)

def DataFileEncoder.after (crates : BackupCrates) (encoder : DataFileEncoder) (items : List Item) :
    DataFileEncoder :=
  ⟨encoder.written ++ lines crates items, encoder.itemCount + items.length,
    encoder.uncompressedBytes + (lines crates items).length⟩

theorem DataFileEncoder.writeItem_eq {encoder : DataFileEncoder} {item} (h : PrintsLine crates item) :
    encoder.writeItem crates item = .ok (encoder.after crates [item]) := by
  simp [writeItem, after, lines, Nat.not_lt.mpr h.fits]

theorem DataFileEncoder.after_after (encoder : DataFileEncoder) (items items') :
    (encoder.after crates items).after crates items' = encoder.after crates (items ++ items') := by
  simp [after, lines, Nat.add_assoc]

def fileOf (crates : BackupCrates) (key : String) (items : List Item) (range : Option KeyRange) :
    DataFileEntry × Bytes :=
  let encoder := new.after crates items
  (.fromChecksums key (encoder.finish crates).2 range, (encoder.finish crates).1)

@[simp]
theorem fileOf_content (key items range) :
    (fileOf crates key items range).2 = crates.gzip.compress (lines crates items) := rfl

theorem writeItem_unordered {items : List Item} (h : ∀ item ∈ items, PrintsLine crates item)
    (encoder : DataFileEncoder) :
    items.foldlM (writeItem crates) (none, encoder) = .ok (none, encoder.after crates items) := by
  induction items generalizing encoder with
  | nil => simp [DataFileEncoder.after, lines]
  | cons item items ih =>
    have hitem := h item (.head _)
    have hstep : writeItem crates (none, encoder) item = .ok (none, encoder.after crates [item]) := by
      simp [writeItem, trackItem, writeItem_eq hitem]
    rw [foldlM_cons, hstep, ok_bind, ih fun i hi => h i (.tail _ hi), after_after, singleton_append]

/-! ## Tracking a file -/

section

variable {order : KeyOrder}

/-- A tracker that has taken the items `done` of the current file, after a file that ended with
`before`. -/
structure Tracked (crates : BackupCrates) (order : KeyOrder) (before : Option Item)
    (done : List Item) (tracker : KeyRangeTracker) : Prop where
  sameOrder : tracker.order = order
  items : tracker.items = done.length
  first : ∀ item ∈ done.head?, ∃ key, order.HoldsKey crates.bd crates.base64 item key ∧
    tracker.first = some (HeldKey.new key)
  latest : match done.getLast?.or before with
    | none => tracker.latest = none
    | some item => ∃ key, order.HoldsKey crates.bd crates.base64 item key ∧
        tracker.latest = some (HeldKey.new key)

variable {before : Option Item} {done : List Item} {tracker : KeyRangeTracker}

theorem Tracked.push (hbd : crates.bd.Documented) (ht : Tracked crates order before done tracker)
    {item key} (hkey : order.HoldsKey crates.bd crates.base64 item key)
    (hafter : ∀ prev ∈ done.getLast?.or before, order.Before crates.bd crates.base64 prev item) :
    ∃ tracker', tracker.push crates.bd crates.base64 item = .ok tracker' ∧
      Tracked crates order before (done ++ [item]) tracker' := by
  have hchecked : tracker.order.checkedKey crates.bd crates.base64 item = .ok key := by
    rw [ht.sameOrder]
    exact KeyOrder.checkedKey_eq_ok.mpr hkey
  have hlt : ∀ latest, tracker.latest = some latest → latest.asChecked.cmp crates.bd key = .lt := by
    intro latest hlatest
    have hprev := ht.latest
    cases hlast : done.getLast?.or before with
    | none => simp [hlast, hlatest] at hprev
    | some prev =>
      simp only [hlast] at hprev
      obtain ⟨prevKey, hprevKey, hheld⟩ := hprev
      cases hlatest.symm.trans hheld
      obtain ⟨ka, kb, ha, hb, hrank⟩ := hafter prev (by rw [hlast]; rfl)
      cases hprevKey.unique ha
      cases hkey.unique hb
      rw [hprevKey.asChecked_new]
      exact (hprevKey.compares hbd hkey).eq_lt.mpr hrank
  refine ⟨{ tracker with
      first := if tracker.items = 0 then some (.new key) else tracker.first
      latest := some (.new key)
      items := tracker.items + 1 }, ?_, ht.sameOrder, by simp [ht.items], ?_, ?_⟩
  · rw [KeyRangeTracker.push, hchecked, ok_bind, KeyRangeTracker.pushChecked]
    cases hlatest : tracker.latest with
    | none => rfl
    | some latest => simp [hlt latest hlatest]
  · intro first hfirst
    cases hdone : done with
    | nil =>
      rw [hdone] at hfirst
      cases hfirst
      exact ⟨key, hkey, by simp [ht.items, hdone]⟩
    | cons d ds =>
      rw [hdone] at hfirst
      obtain ⟨key', hkey', hheld⟩ := ht.first first (by rw [hdone]; exact hfirst)
      exact ⟨key', hkey', by simp [ht.items, hdone, hheld]⟩
  · simp only [getLast?_append]
    exact ⟨key, hkey, rfl⟩

theorem Tracked.writeItems (hbd : crates.bd.Documented)
    (ht : Tracked crates order before done tracker) {rest : List Item}
    (hkeys : ∀ item ∈ rest, ∃ key, order.HoldsKey crates.bd crates.base64 item key)
    (hprint : ∀ item ∈ rest, PrintsLine crates item)
    (hchain : ((done.getLast?.or before).toList ++ rest).IsChain
      (order.Before crates.bd crates.base64)) (encoder : DataFileEncoder) :
    ∃ tracker', rest.foldlM (writeItem crates) (some tracker, encoder) =
        .ok (some tracker', encoder.after crates rest) ∧
      Tracked crates order before (done ++ rest) tracker' := by
  induction rest generalizing done tracker encoder with
  | nil => exact ⟨tracker, by simp [DataFileEncoder.after, lines], by rwa [append_nil]⟩
  | cons item rest ih =>
    obtain ⟨key, hkey⟩ := hkeys item (.head _)
    obtain ⟨-, hrestChain, hstep⟩ := isChain_append.mp hchain
    obtain ⟨tracker', hpush, ht'⟩ := ht.push hbd hkey (fun prev hprev => by
      rw [mem_def.mp hprev] at hstep
      exact hstep prev (by simp) item (by simp))
    have hitem : writeItem crates (some tracker, encoder) item =
        .ok (some tracker', encoder.after crates [item]) := by
      simp [writeItem, trackItem, hpush, Except.mapError, writeItem_eq (hprint item (.head _))]
    have hchain' : (((done ++ [item]).getLast?.or before).toList ++ rest).IsChain
        (order.Before crates.bd crates.base64) := by
      simpa using hrestChain
    obtain ⟨tracker'', hfold, ht''⟩ := ih ht' (fun i hi => hkeys i (.tail _ hi))
      (fun i hi => hprint i (.tail _ hi)) hchain' (encoder.after crates [item])
    refine ⟨tracker'', ?_, by rwa [append_assoc, singleton_append] at ht''⟩
    rw [foldlM_cons, hitem, ok_bind, hfold, after_after, singleton_append]

structure RangeOf (crates : BackupCrates) (order : KeyOrder) (items : List Item)
    (range : KeyRange) : Prop where
  first : ∃ item key, items.head? = some item ∧
    order.HoldsKey crates.bd crates.base64 item key ∧ range.first = (HeldKey.new key).toItem order
  last : ∃ item key, items.getLast? = some item ∧
    order.HoldsKey crates.bd crates.base64 item key ∧ range.last = (HeldKey.new key).toItem order

theorem Tracked.closeFile (ht : Tracked crates order before done tracker) (hne : done ≠ []) (isLast) :
    ∃ range tracker', closeFile isLast (some tracker) = (some range, tracker') ∧
      RangeOf crates order done range ∧
      (isLast = false → ∃ t, tracker' = some t ∧ Tracked crates order done.getLast? [] t) := by
  obtain ⟨firstItem, hhead⟩ : ∃ item, done.head? = some item := ⟨_, head?_eq_some_head hne⟩
  obtain ⟨lastItem, hlast⟩ : ∃ item, done.getLast? = some item :=
    ⟨_, getLast?_eq_some_getLast hne⟩
  obtain ⟨firstKey, hfirstKey, hfirst⟩ := ht.first firstItem hhead
  have hlatest := ht.latest
  simp only [hlast] at hlatest
  obtain ⟨lastKey, hlastKey, hheld⟩ := hlatest
  have hrange : RangeOf crates order done
      ⟨(HeldKey.new firstKey).toItem order, (HeldKey.new lastKey).toItem order⟩ :=
    ⟨⟨firstItem, firstKey, hhead, hfirstKey, rfl⟩, lastItem, lastKey, hlast, hlastKey, rfl⟩
  cases isLast with
  | true =>
    refine ⟨_, none, ?_, hrange, by simp⟩
    simp [ExtendDb.closeFile, KeyRangeTracker.finish, hfirst, hheld, ht.sameOrder]
  | false =>
    refine ⟨_, some { tracker with first := none, items := 0 }, ?_, hrange, fun _ => ⟨_, rfl, ?_⟩⟩
    · simp [ExtendDb.closeFile, KeyRangeTracker.nextFile, hfirst, hheld, ht.sameOrder]
    · refine ⟨ht.sameOrder, rfl, by simp, ?_⟩
      simp only [hlast]
      exact ⟨lastKey, hlastKey, hheld⟩

end

end ExtendDb
