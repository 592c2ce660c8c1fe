import ExtendDb.BackupFormat.Manifest

/-!
# Reading a key-ordered backup

What a decoder and a range check know after some items is an invariant of each step of the reader.
-/

namespace ExtendDb

open Fallible List ExtenddbManifest KeyRangeCheck OrdMap

variable {crates : BackupCrates}

/-! ## The decoder -/

theorem splitLine_length (bs) : (splitLine bs).1.length + (splitLine bs).2.length = bs.length := by
  induction bs with
  | nil => rfl
  | cons b bs ih =>
    rw [splitLine]
    split
    · simp [Nat.add_comm]
    · simp only [length_cons]
      omega

theorem splitLine_ne_nil {bs} (h : (splitLine bs).1 = []) : bs = [] := by
  cases bs with
  | nil => rfl
  | cons b bs =>
    rw [splitLine] at h
    split at h <;> cases h

theorem Inflated.readCappedLine_ok {source source' : Inflated} {line}
    (h : source.readCappedLine = .ok (line, source')) :
    line = (splitLine source.bytes).1 ∧ source'.bytes = (splitLine source.bytes).2 := by
  simp only [readCappedLine] at h
  split at h
  · cases h
  split at h
  · cases h
    exact ⟨rfl, rfl⟩
  split at h <;> cases h
  exact ⟨rfl, rfl⟩

theorem verifyExpected_eq_ok {α : Type} [DecidableEq α] {e actual : α} {mismatch} :
    verifyExpected (some e) actual mismatch = .ok () ↔ e = actual := by
  rw [verifyExpected]
  by_cases h : e = actual
  all_goals simp

structure Decoded (crates : BackupCrates) (entry : DataFileEntry) (content : Bytes)
    (done : List Item) (decoder : DataFileDecoder) : Prop where
  failed : decoder.failed = none
  finished : decoder.finished = false
  expectations : decoder.expectations = entry.expectations
  compressed : decoder.compressed = content
  items : decoder.itemsDecoded = done.length
  bytes : decoder.bytesDecoded + decoder.source.bytes.length =
    (crates.gzip.openSource (some entry.bytes) content).bytes.length

structure CountsMatch (crates : BackupCrates) (entry : DataFileEntry) (content : Bytes)
    (items : List Item) : Prop where
  items : items.length = entry.itemCount
  bytes : content.length = entry.bytes
  uncompressed : (crates.gzip.inflate content).1.length = entry.uncompressedBytes

variable {entry : DataFileEntry} {content : Bytes} {done : List Item}

namespace Decoded

variable {decoder next : DataFileDecoder}

section

variable (hd : Decoded crates entry content done decoder)
include hd

theorem nextItem_inner {result} (h : decoder.nextItem crates = (.ok result, next)) :
    decoder.nextItemInner crates = .ok (result, next) := by
  rw [DataFileDecoder.nextItem, hd.failed, hd.finished] at h
  cases hinner : decoder.nextItemInner crates with
  | error e => simp [hinner] at h
  | ok r =>
    simp only [hinner, Bool.false_eq_true, if_false, Prod.mk.injEq, Except.ok.injEq] at h
    rw [← h.1, ← h.2]

theorem step {item : Item} (h : decoder.nextItem crates = (.ok (some item), next)) :
    Decoded crates entry content (done ++ [item]) next := by
  obtain ⟨⟨line, source⟩, hread, h⟩ := unbind (hd.nextItem_inner h)
  obtain ⟨rfl, hrest⟩ := Inflated.readCappedLine_ok hread
  simp only at h
  split at h
  · replace h := ok_of_check h
    cases h
  replace h := ok_of_check h
  obtain ⟨item', -, h⟩ := unbind h
  cases h
  refine ⟨hd.failed, hd.finished, hd.expectations, hd.compressed, by simp [hd.items], ?_⟩
  have hlength := splitLine_length decoder.source.bytes
  have hbytes := hd.bytes
  simp only [hrest]
  omega

theorem finish (h : decoder.nextItem crates = (.ok none, next)) :
    CountsMatch crates entry content done := by
  obtain ⟨⟨line, source⟩, hread, h⟩ := unbind (hd.nextItem_inner h)
  obtain ⟨rfl, -⟩ := Inflated.readCappedLine_ok hread
  simp only at h
  split at h
  case isFalse =>
    replace h := ok_of_check h
    obtain ⟨item', -, h⟩ := unbind h
    cases h
  rename_i hempty
  have hnil := splitLine_ne_nil (isEmpty_iff.mp hempty)
  obtain ⟨hchecks, -⟩ := check_then_eq_ok.mp h
  have hsize : content.length = entry.bytes ∧ (do
        verifyExpected decoder.expectations.itemCount decoder.itemsDecoded
          (.itemCountMismatch · decoder.itemsDecoded)
        verifyExpected decoder.expectations.uncompressedBytes decoder.bytesDecoded
          (.byteCountMismatch · decoder.bytesDecoded)) = .ok () := by
    have hverify (h : decoder.expectations.verifyCompressedSize decoder.compressed.length =
        .ok ()) : content.length = entry.bytes := by
      rw [hd.expectations, hd.compressed] at h
      exact (verifyExpected_eq_ok.mp h).symm
    rw [DataFileDecoder.finishChecks] at hchecks
    split at hchecks
    · obtain ⟨hdigest, hcounts⟩ := check_then_eq_ok.mp hchecks
      exact ⟨hverify (check_then_eq_ok.mp hdigest).1, hcounts⟩
    · obtain ⟨hdigest, hcounts⟩ := check_then_eq_ok.mp hchecks
      exact ⟨hverify hdigest, hcounts⟩
  obtain ⟨hsize, hcounts⟩ := hsize
  obtain ⟨hitems, hbytes⟩ := check_then_eq_ok.mp hcounts
  rw [hd.expectations] at hitems hbytes
  have htotal := hd.bytes
  rw [hnil, GzipCrate.openSource] at htotal
  simp only [hsize, lt_irrefl, if_false] at htotal
  refine ⟨?_, hsize, ?_⟩
  · rw [← hd.items]
    exact (verifyExpected_eq_ok.mp hitems).symm
  · rw [← htotal]
    exact (verifyExpected_eq_ok.mp hbytes).symm

end

end Decoded

/-! ## The range check -/

structure CheckedSoFar (crates : BackupCrates) (order : KeyOrder) (first last : CheckedKey)
    (done : List Item) (check : KeyRangeCheck) : Prop where
  sameOrder : check.tracker.order = order
  range : check.range = .ok (HeldKey.new first, HeldKey.new last)
  items : check.tracker.items = done.length
  chain : done.IsChain (order.Before crates.bd crates.base64)
  latest : match done.getLast? with
    | none => check.tracker.latest = none
    | some item => ∃ key, order.HoldsKey crates.bd crates.base64 item key ∧
        check.tracker.latest = some (HeldKey.new key)
  head : ∀ item ∈ done.head?, ∃ key, order.HoldsKey crates.bd crates.base64 item key ∧
    key.rank = first.rank

variable {bd : BigDecimalCrate}

theorem KeyRangeTracker.pushChecked_ok {tracker tracker' : KeyRangeTracker} {key}
    (h : tracker.pushChecked bd key = .ok tracker') :
    tracker'.order = tracker.order ∧ tracker'.items = tracker.items + 1 ∧
      tracker'.latest = some (HeldKey.new key) ∧
      ∀ latest, tracker.latest = some latest → latest.asChecked.cmp bd key = .lt := by
  rw [pushChecked] at h
  split at h
  case h_1 hnone =>
    cases h
    exact ⟨rfl, rfl, rfl, by simp [hnone]⟩
  case h_2 latest hlatest =>
    split at h
    · cases h
    rename_i hlt
    cases h
    refine ⟨rfl, rfl, rfl, fun latest' hlatest' => ?_⟩
    cases hlatest.symm.trans hlatest'
    exact not_not.mp hlt

variable {order : KeyOrder} {first last : CheckedKey}

namespace CheckedSoFar

variable {check check' : KeyRangeCheck}

theorem step (hbd : crates.bd.Documented) {firstItem}
    (hfirst : order.HoldsKey crates.bd crates.base64 firstItem first)
    (hc : CheckedSoFar crates order first last done check) {item}
    (h : check.check crates.bd crates.base64 item = .ok check') :
    CheckedSoFar crates order first last (done ++ [item]) check' := by
  obtain ⟨⟨f, l⟩, hrange, h⟩ := unbind h
  cases hrange.symm.trans hc.range
  obtain ⟨key, hkey, h⟩ := unbind h
  rw [hc.sameOrder] at hkey
  have hholds := KeyOrder.checkedKey_eq_ok.mp hkey
  simp only at h
  split at h
  · cases h
  rename_i hstart
  split at h
  · cases h
  obtain ⟨tracker, hpush, h⟩ := unbind h
  cases h
  obtain ⟨horder, hitems, hlatest, hafter⟩ := KeyRangeTracker.pushChecked_ok hpush
  refine ⟨horder.trans hc.sameOrder, hc.range, by simp [hitems, hc.items], ?_, ?_, ?_⟩
  · refine isChain_append.mpr ⟨hc.chain, .singleton _, fun prev hprev next hnext => ?_⟩
    cases hnext
    have hlast := hc.latest
    rw [hprev] at hlast
    obtain ⟨prevKey, hprevKey, hheld⟩ := hlast
    have hlt := hafter _ hheld
    rw [hprevKey.asChecked_new] at hlt
    exact ⟨prevKey, key, hprevKey, hholds, (hprevKey.compares hbd hholds).eq_lt.mp hlt⟩
  · simp only [getLast?_append, getLast?_singleton]
    exact ⟨key, hholds, hlatest⟩
  · cases hdone : done with
    | nil =>
      intro item' hitem'
      cases hitem'
      refine ⟨key, hholds, ?_⟩
      -- the first item of the file is compared with the recorded first key
      have hcmp : key.cmp crates.bd (HeldKey.new first).asChecked = .eq := by
        by_contra hne
        exact hstart ⟨by simp [hc.items, hdone], hne⟩
      rw [hfirst.asChecked_new] at hcmp
      exact (hholds.compares hbd hfirst).eq_eq.mp hcmp
    | cons d ds =>
      exact fun item' hitem' => hc.head item' (by rw [hdone]; exact hitem')

theorem finish (hbd : crates.bd.Documented) {lastItem : Item}
    (hlast : order.HoldsKey crates.bd crates.base64 lastItem last)
    (hc : CheckedSoFar crates order first last done check) (h : check.finish crates.bd = .ok ()) :
    ∃ item key, done.getLast? = some item ∧ order.HoldsKey crates.bd crates.base64 item key ∧
      key.rank = last.rank := by
  obtain ⟨⟨f, l⟩, hrange, h⟩ := unbind h
  cases hrange.symm.trans hc.range
  have hlatest := hc.latest
  cases hdone : done.getLast? with
  | none =>
    simp only [hdone] at hlatest
    simp [hlatest] at h
  | some item =>
    simp only [hdone] at hlatest
    obtain ⟨key, hholds, hheld⟩ := hlatest
    simp only [hheld, hholds.asChecked_new, hlast.asChecked_new] at h
    split at h
    · cases h
    rename_i hcmp
    exact ⟨item, key, rfl, hholds, (hholds.compares hbd hlast).eq_eq.mp (not_not.mp hcmp)⟩

end CheckedSoFar

/-! ## One file -/

structure RangeMatches (crates : BackupCrates) (order : KeyOrder) (range : KeyRange)
    (items : List Item) : Prop where
  chain : items.IsChain (order.Before crates.bd crates.base64)
  first : ∃ item key key', items.head? = some item ∧
    order.HoldsKey crates.bd crates.base64 item key ∧
    order.HoldsKey crates.bd crates.base64 range.first key' ∧ key.rank = key'.rank
  last : ∃ item key key', items.getLast? = some item ∧
    order.HoldsKey crates.bd crates.base64 item key ∧
    order.HoldsKey crates.bd crates.base64 range.last key' ∧ key.rank = key'.rank

theorem DataFileReader.nextItem_eq {reader next : DataFileReader} {item}
    (hfailed : reader.checkFailed = none) (hended : reader.ended = false)
    (h : reader.nextItem crates = (.ok item, next)) :
    ∃ decoder check, reader.decoder.nextItem crates = (.ok item, decoder) ∧
      runCheck crates reader.check item = .ok check ∧
      next = { reader with decoder, check, ended := item.isNone } := by
  rw [nextItem, hfailed, hended] at h
  simp only [Bool.false_eq_true, if_false] at h
  split at h
  · cases h
  rename_i item' decoder hdecoder
  split at h
  · rename_i check hcheck
    cases h
    exact ⟨decoder, check, hdecoder, hcheck, by rw [hfailed]⟩
  · cases h

structure RangeHolds (crates : BackupCrates) (order : KeyOrder) (range : KeyRange)
    (first last : CheckedKey) : Prop where
  first : order.HoldsKey crates.bd crates.base64 range.first first
  last : order.HoldsKey crates.bd crates.base64 range.last last

section

variable {range : KeyRange}

theorem DataFileReader.Streams.matches (hbd : crates.bd.Documented)
    (hrange : RangeHolds crates order range first last) {reader : DataFileReader} {items done}
    (hstream : Streams crates reader items) (hfailed : reader.checkFailed = none)
    (hended : reader.ended = false) (hdecoder : Decoded crates entry content done reader.decoder)
    {check} (hsome : reader.check = some check)
    (hcheck : CheckedSoFar crates order first last done check) :
    CountsMatch crates entry content (done ++ items) ∧
      RangeMatches crates order range (done ++ items) := by
  induction hstream generalizing done check with
  | done h =>
    obtain ⟨decoder, check', hnext, hrun, -⟩ := nextItem_eq hfailed hended h
    rw [hsome] at hrun
    obtain ⟨hfinish, -⟩ := check_then_eq_ok.mp hrun
    obtain ⟨item, key, hlast, hholds, hrank⟩ := hcheck.finish hbd hrange.last hfinish
    rw [append_nil]
    refine ⟨hdecoder.finish hnext, hcheck.chain, ?_, item, key, last, hlast, hholds, hrange.last,
      hrank⟩
    cases hdone : done with
    | nil => simp [hdone] at hlast
    | cons d ds =>
      obtain ⟨key', hholds', hrank'⟩ := hcheck.head d (by rw [hdone]; rfl)
      exact ⟨d, key', first, rfl, hholds', hrange.first, hrank'⟩
  | @item reader next item items h hrest ih =>
    obtain ⟨decoder, check', hnext, hrun, rfl⟩ := nextItem_eq hfailed hended h
    rw [hsome] at hrun
    obtain ⟨check'', hstep, rfl⟩ := map_eq_ok.mp hrun
    have hwhole := ih hfailed rfl (hdecoder.step hnext) rfl (hcheck.step hbd hrange.first hstep)
    rwa [append_assoc] at hwhole

end

theorem KeyRangeCheck.endpoint_ok {base64 which key held}
    (h : endpoint bd base64 order which key = .ok held) :
    ∃ checked, order.HoldsKey bd base64 key checked ∧ held = HeldKey.new checked := by
  obtain ⟨-, h⟩ := check_then_eq_ok.mp (mapError_eq_ok.mp h)
  obtain ⟨checked, hchecked, rfl⟩ := map_eq_ok.mp h
  exact ⟨checked, KeyOrder.checkedKey_eq_ok.mp hchecked, rfl⟩

variable {manifest : ExtenddbManifest}

theorem reader_matches (hbd : crates.bd.Documented) {content : Bytes} {hashing reader items}
    (hordered : manifest.itemOrder = .keyOrdered) (horder : manifest.keyOrder = .ok order)
    (hreader : manifest.reader crates entry content hashing = .ok reader)
    (hstream : DataFileReader.Streams crates reader items) :
    CountsMatch crates entry content items ∧
      ∃ range, entry.keyRange = some range ∧ RangeMatches crates order range items := by
  obtain ⟨check, hcheck, hreader⟩ := unbind hreader
  obtain ⟨decoder, hdecoder, hreader⟩ := unbind hreader
  cases hreader
  have hopen := ok_of_check hdecoder
  cases hopen
  rw [rangeCheck, hordered] at hcheck
  cases hentry : entry.keyRange with
  | none => simp [hentry] at hcheck
  | some range =>
    simp only [hentry, horder] at hcheck
    cases hcheck
    have hstart : Decoded crates entry content []
        (.openFile crates content entry.expectations hashing) :=
      ⟨rfl, rfl, rfl, rfl, rfl, Nat.zero_add _⟩
    -- a range that is no pair of keys fails the first call
    have hends : ∃ first last, RangeHolds crates order range first last ∧
        (new crates.bd crates.base64 order range).range = .ok (.new first, .new last) := by
      have hok : ∃ ends, (new crates.bd crates.base64 order range).range = .ok ends := by
        cases hstream with
        | done h =>
          obtain ⟨_, _, _, hrun, -⟩ := DataFileReader.nextItem_eq rfl rfl h
          obtain ⟨hfinish, -⟩ := check_then_eq_ok.mp hrun
          obtain ⟨ends, hends, -⟩ := unbind hfinish
          exact ⟨ends, hends⟩
        | item h _ =>
          obtain ⟨_, _, _, hrun, -⟩ := DataFileReader.nextItem_eq rfl rfl h
          obtain ⟨_, hitem, -⟩ := map_eq_ok.mp hrun
          obtain ⟨ends, hends, -⟩ := unbind hitem
          exact ⟨ends, hends⟩
      obtain ⟨ends, hends⟩ := hok
      have hparts := hends
      obtain ⟨first, hfirst, hparts⟩ := unbind hparts
      obtain ⟨last, hlast, hparts⟩ := unbind hparts
      cases hparts
      obtain ⟨firstKey, hfirstKey, rfl⟩ := endpoint_ok hfirst
      obtain ⟨lastKey, hlastKey, rfl⟩ := endpoint_ok hlast
      exact ⟨firstKey, lastKey, ⟨hfirstKey, hlastKey⟩, hends⟩
    obtain ⟨first, last, hholds, hends⟩ := hends
    have hchecked : CheckedSoFar crates order first last []
        (.new crates.bd crates.base64 order range) :=
      ⟨rfl, hends, rfl, .nil, rfl, by simp⟩
    obtain ⟨hcounts, hrange⟩ := hstream.matches hbd hholds rfl rfl hstart rfl hchecked
    exact ⟨hcounts, range, rfl, hrange⟩

/-! ## The whole backup -/

structure FileRead where
  entry : DataFileEntry
  content : Bytes
  hashing : Bool
  items : List Item

def FileRead.Complete (crates : BackupCrates) (manifest : ExtenddbManifest) (file : FileRead) :
    Prop :=
  ∃ reader, manifest.reader crates file.entry file.content file.hashing = .ok reader ∧
    DataFileReader.Streams crates reader file.items

theorem validateRange_ok {prev next} (h : validateRange crates order prev entry = .ok next) :
    ∃ range, entry.keyRange = some range ∧ next = some range.last ∧
      ∀ last, prev = some last → order.compare crates.bd crates.base64 last range.first = .ok .lt := by
  rw [validateRange] at h
  cases hrange : entry.keyRange with
  | none => simp [hrange] at h
  | some range =>
    simp only [hrange] at h
    replace h := ok_of_check h
    replace h := ok_of_check h
    obtain ⟨o, -, h⟩ := unbind h
    split at h
    · cases h
    obtain ⟨hfollows, h⟩ := check_then_eq_ok.mp h
    cases h
    refine ⟨range, rfl, rfl, ?_⟩
    rintro last rfl
    obtain ⟨o', hcompare, hlt⟩ := unbind hfollows
    split at hlt
    · cases hlt
    rename_i ho
    rw [mapError_eq_ok.mp hcompare, not_not.mp ho]

theorem ranges_chain (hbd : crates.bd.Documented) {files : List FileRead}
    (hfiles : ∀ file ∈ files, ∃ range, file.entry.keyRange = some range ∧
      RangeMatches crates order range file.items) {prev next}
    (h : (files.map FileRead.entry).foldlM (validateRange crates order) prev = .ok next) :
    (files.flatMap FileRead.items).IsChain (order.Before crates.bd crates.base64) ∧
      ∀ last key, prev = some last → order.HoldsKey crates.bd crates.base64 last key →
        ∀ item ∈ (files.flatMap FileRead.items).head?, ∃ key',
          order.HoldsKey crates.bd crates.base64 item key' ∧ key.rank < key'.rank := by
  induction files generalizing prev with
  | nil => exact ⟨.nil, by simp⟩
  | cons file files ih =>
    obtain ⟨mid, hfile, hrest⟩ := unbind h
    obtain ⟨range, hentry, rfl, hprev⟩ := validateRange_ok hfile
    obtain ⟨range', hentry', hmatches⟩ := hfiles file (.head _)
    cases hentry.symm.trans hentry'
    obtain ⟨hchain, hnext⟩ := ih (fun f hf => hfiles f (.tail _ hf)) hrest
    obtain ⟨item, key, key', hhead, hholds, hfirst, hrank⟩ := hmatches.first
    obtain ⟨lastItem, lastKey, lastKey', hlast, hlastHolds, hlastRange, hlastRank⟩ :=
      hmatches.last
    rw [flatMap_cons]
    constructor
    · refine isChain_append.mpr ⟨hmatches.chain, hchain, fun x hx y hy => ?_⟩
      cases hlast.symm.trans hx
      obtain ⟨keyY, hy, hlt⟩ := hnext range.last lastKey' rfl hlastRange y hy
      exact ⟨lastKey, keyY, hlastHolds, hy, hlastRank ▸ hlt⟩
    · intro last keyLast hsome hkeyLast x hx
      rw [head?_append, hhead] at hx
      cases hx
      have hlt := hprev last hsome
      rw [hkeyLast.compare_eq hfirst, Except.ok.injEq] at hlt
      exact ⟨key, hholds, hrank ▸ (hkeyLast.compares hbd hfirst).eq_lt.mp hlt⟩

theorem validate_keyOrdered {validateIdentity}
    (hvalid : manifest.validate crates validateIdentity = .ok ())
    (hordered : manifest.itemOrder = .keyOrdered) :
    ∃ order next, manifest.keyOrder = .ok order ∧
      manifest.dataFiles.foldlM (validateRange crates order) none = .ok next := by
  have h := ok_of_check hvalid
  replace h := ok_of_check h
  replace h := ok_of_check h
  obtain ⟨state, -, h⟩ := unbind h
  simp only [hordered] at h
  split at h
  · cases h
  simp only [bind_eq_ok] at h
  obtain ⟨order, horder, next, hnext, -⟩ := h
  exact ⟨order, next, horder, hnext⟩

/-- The files of an accepted key-ordered manifest, read to their ends, hold one strictly ascending
sequence of items with the recorded counts, sizes and end keys. -/
theorem keyOrdered_read {crates : BackupCrates} (hbd : crates.bd.Documented)
    (hbase64 : crates.base64.Documented)
    {validateIdentity : ManifestIdentity → Except BackupError Unit} {manifest : ExtenddbManifest}
    (hvalid : manifest.validate crates validateIdentity = .ok ())
    (hordered : manifest.itemOrder = .keyOrdered) {files : List FileRead}
    (hentries : files.map FileRead.entry = manifest.dataFiles)
    (hread : ∀ file ∈ files, file.Complete crates manifest) :
    ∃ order, manifest.keyOrder = .ok order ∧ (files.flatMap FileRead.items).Pairwise
        (fun a b => order.compare crates.bd crates.base64 a b = .ok .lt) ∧
      (∀ file ∈ files, CountsMatch crates file.entry file.content file.items ∧
        ∃ range first last, file.entry.keyRange = some range ∧
          file.items.head? = some first ∧ file.items.getLast? = some last ∧
          ∀ attr ∈ order.attributes, get? first attr.1 = get? range.first attr.1 ∧
            get? last attr.1 = get? range.last attr.1) ∧
      (files.flatMap FileRead.items).length =
        (manifest.dataFiles.map DataFileEntry.itemCount).sum := by
  obtain ⟨order, next, horder, hranges⟩ := validate_keyOrdered hvalid hordered
  have hfiles : ∀ file ∈ files, CountsMatch crates file.entry file.content file.items ∧
      ∃ range, file.entry.keyRange = some range ∧ RangeMatches crates order range file.items := by
    intro file hfile
    obtain ⟨reader, hreader, hstream⟩ := hread file hfile
    exact reader_matches hbd hordered horder hreader hstream
  rw [← hentries] at hranges
  obtain ⟨hchain, -⟩ := ranges_chain hbd (fun file hfile => (hfiles file hfile).2) hranges
  refine ⟨order, horder, ?_, fun file hfile => ?_, ?_⟩
  · exact hchain.pairwise.imp fun h => h.compare_eq hbd
  · obtain ⟨hcounts, range, hentry, hmatches⟩ := hfiles file hfile
    obtain ⟨first, key, key', hhead, hholds, hrange, hrank⟩ := hmatches.first
    obtain ⟨last, lastKey, lastKey', hlast, hlastHolds, hlastRange, hlastRank⟩ := hmatches.last
    exact ⟨hcounts, range, first, last, hentry, hhead, hlast, fun attr hattr =>
      ⟨hholds.get?_eq hbd hbase64 hrange hrank hattr,
        hlastHolds.get?_eq hbd hbase64 hlastRange hlastRank hattr⟩⟩
  · rw [length_flatMap, ← hentries, map_map]
    exact congrArg sum (map_congr_left fun file hfile => (hfiles file hfile).1.items)

/-! ## Files of items with a letter for their key -/

def letterItem (c : Char) : Item := [("pk", .s (String.singleton c))]

/-- A line is the letter, the compressed file has one more byte, and the digests depend on the
bytes. -/
def letterCrates : BackupCrates where
  bd := .reference
  base64 := .standard
  texts := ⟨fun _ => "", fun _ => "", id⟩
  json :=
    { print := fun v => match v with
        | .object [(_, .object [(_, .object [(_, .string s)])])] =>
          s.toList.map fun c => UInt8.ofNat c.toNat
        | _ => []
      parse := fun line => match line with
        | [b] => .ok (.object [("Item", .object [("pk", .object
            [("S", .string (String.singleton (Char.ofNat b.toNat)))])])])
        | _ => .error (.json "") }
  gzip := ⟨fun b => 31 :: b, fun b => (b.tail, none), fun _ b => (b.tail, none)⟩
  sha256 := fun b => replicate 31 0 ++ [UInt8.ofNat (b.map UInt8.toNat).sum]
  md5 := fun b => if b.length % 2 = 0 then replicate 16 0 else replicate 16 1

def letterEntry (key digest : String) (first last : Char) : DataFileEntry where
  key := key
  itemCount := 2
  sha256 := "00000000000000000000000000000000000000000000000000000000000000" ++ digest
  md5 := "AQEBAQEBAQEBAQEBAQEBAQ=="
  bytes := 5
  uncompressedBytes := 4
  keyRange := some ⟨letterItem first, letterItem last⟩

def letterFiles : List FileRead :=
  [⟨letterEntry "data/0.json.gz" "f6" 'a' 'b', [31, 97, 10, 98, 10], true,
      [letterItem 'a', letterItem 'b']⟩,
    ⟨letterEntry "data/1.json.gz" "fa" 'c' 'd', [31, 99, 10, 100, 10], false,
      [letterItem 'c', letterItem 'd']⟩]

def letterManifest (itemCount : Int) : ExtenddbManifest where
  formatVersion := 1
  identity := ⟨"", "", 0, "", ""⟩
  backupSizeBytes := 10
  itemOrder := .keyOrdered
  sourceTable := ⟨[⟨"pk", .hash⟩], [⟨"pk", .s⟩], 0, itemCount, 0⟩
  dataFiles := letterFiles.map FileRead.entry

theorem letterFiles_complete (itemCount) :
    ∀ file ∈ letterFiles, file.Complete letterCrates (letterManifest itemCount) := by
  intro file hfile
  rcases mem_pair.mp hfile with rfl | rfl <;> exact ⟨_, rfl, .item rfl (.item rfl (.done rfl))⟩

theorem keyOrdered_read_letters : ∃ order, (letterManifest 4).keyOrder = .ok order ∧
      [letterItem 'a', letterItem 'b', letterItem 'c', letterItem 'd'].Pairwise
        (fun a b => order.compare .reference .standard a b = .ok .lt) ∧
      (letterFiles.flatMap FileRead.items).length =
        ((letterManifest 4).dataFiles.map DataFileEntry.itemCount).sum := by
  have hvalid : (letterManifest 4).validate letterCrates (fun _ => .ok ()) = .ok () := rfl
  obtain ⟨order, horder, hascending, -, hcount⟩ := keyOrdered_read
    BigDecimalCrate.reference_documented Base64Engine.standard_documented hvalid rfl rfl
    (letterFiles_complete 4)
  exact ⟨order, horder, hascending, hcount⟩

/-- The item count of the source table is not compared with the files: a manifest that records five
items is accepted with files of four. -/
theorem keyOrdered_read_sourceCount :
    (letterManifest 5).validate letterCrates (fun _ => .ok ()) = .ok () ∧
      (letterManifest 5).itemOrder = .keyOrdered ∧
      letterFiles.map FileRead.entry = (letterManifest 5).dataFiles ∧
      (∀ file ∈ letterFiles, file.Complete letterCrates (letterManifest 5)) ∧
      ((letterFiles.flatMap FileRead.items).length : Int) ≠
        (letterManifest 5).sourceTable.itemCount :=
  ⟨rfl, rfl, rfl, letterFiles_complete 5, by decide⟩

end ExtendDb
