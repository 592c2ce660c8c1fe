import ExtendDb.BackupFormat.Writer

/-!
# What the backup writer writes the reader reads

The files of a backup, however the items are cut into files, are accepted by the checks of the
manifest and read back to the same items in the same order.
-/

namespace ExtendDb

open Fallible List ExtenddbManifest DataFileDecoder HeldKey OrdMap ManifestHeader DataFileEntry
  KeyOrder Prod

variable {crates : BackupCrates}

/-! ## Keys -/

variable {order : KeyOrder}

namespace KeyOrder

variable {keySchema : List KeySchemaElement} {attributeDefinitions : List AttributeDefinition}

theorem resolveElement_ok {slots slots' element}
    (h : resolveElement attributeDefinitions slots element = .ok slots') :
    ∃ ty, typeOf attributeDefinitions element.attributeName = .ok ty ∧
      (slots' = (some (element.attributeName, ty), slots.2) ∨
        slots' = (slots.1, some (element.attributeName, ty))) := by
  simp only [resolveElement] at h
  split at h
  · cases h
  split at h
  · split at h
    · cases h
    obtain ⟨ty, hty, h⟩ := unbind h
    cases h
    exact ⟨ty, hty, .inl rfl⟩
  · split at h
    · cases h
    obtain ⟨ty, hty, h⟩ := unbind h
    cases h
    exact ⟨ty, hty, .inr rfl⟩

theorem resolve_ok (h : resolve keySchema attributeDefinitions = .ok order) :
    (∀ attr ∈ order.attributes, (∃ element ∈ keySchema, element.attributeName = attr.1) ∧
      typeOf attributeDefinitions attr.1 = .ok attr.2) ∧
    ∀ range, order.range = some range → range.1 ≠ order.hash.1 := by
  obtain ⟨⟨hash, range⟩, hfold, h⟩ := unbind h
  let inv (slots : Option (String × ScalarAttributeType) × Option (String × ScalarAttributeType)) :
      Prop :=
    ∀ attr, slots.1 = some attr ∨ slots.2 = some attr →
      (∃ element ∈ keySchema, element.attributeName = attr.1) ∧
        typeOf attributeDefinitions attr.1 = .ok attr.2
  have hinv : inv (hash, range) := by
    refine foldlM_invariant inv (fun slots element slots' hmem hslots hstep => ?_)
      (fun attr hattr => by rcases hattr with h | h <;> cases h) hfold
    obtain ⟨ty, hty, hslots'⟩ := resolveElement_ok hstep
    have hnew : (∃ e ∈ keySchema, e.attributeName = element.attributeName) ∧
        typeOf attributeDefinitions element.attributeName = .ok ty := ⟨⟨element, hmem, rfl⟩, hty⟩
    intro attr hattr
    rcases hslots' with rfl | rfl <;> rcases hattr with hattr | hattr
    · cases hattr
      exact hnew
    · exact hslots attr (.inr hattr)
    · exact hslots attr (.inl hattr)
    · cases hattr
      exact hnew
  cases hhash : hash with
  | none => simp [hhash] at h
  | some hashAttr =>
    simp only [hhash] at h
    split at h
    · cases h
    rename_i hdistinct
    cases h
    refine ⟨fun attr hattr => hinv attr ?_, fun r hr hsame => hdistinct ?_⟩
    · rcases mem_cons.mp hattr with rfl | hattr
      · exact .inl hhash
      · exact .inr (by simpa using hattr)
    · simp only at hr
      simp [hr, hsame]

end KeyOrder

variable {ty : ScalarAttributeType} {value : AttributeValue} {name : String}

theorem exists_hashKeyText (base64) (h : checkKeyValue name ty value = .ok ()) :
    ∃ text, hashKeyText base64 value = some text := by
  have hty := checkKeyValue_scalarType h
  cases value <;> simp [scalarType] at hty <;> exact ⟨_, rfl⟩

theorem exists_rangeKey {bd} (hbd : bd.Documented) (h : checkKeyValue name ty value = .ok ()) :
    ∃ r, rangeKey bd name value = .ok r := by
  have hty := checkKeyValue_scalarType h
  cases value <;> simp [scalarType] at hty
  case s => exact ⟨_, rfl⟩
  case b => exact ⟨_, rfl⟩
  case n v =>
    subst hty
    obtain ⟨n, hn, hnormal⟩ := checkKeyValue_number h
    cases hn
    obtain ⟨d, hparse, -⟩ := hbd.parse_supported hnormal
    have hd : KeyOrder.parseNumber bd name v = .ok d := by simp [KeyOrder.parseNumber, hparse]
    exact ⟨.n v d, by rw [rangeKey, hd]; rfl⟩

variable {item : Item}

theorem exists_holdsKey {bd} (hbd : bd.Documented) (base64)
    (hvalue : ∀ attr ∈ order.attributes, ∃ value, get? item attr.1 = some value ∧
      checkKeyValue attr.1 attr.2 value = .ok ()) :
    ∃ key, order.HoldsKey bd base64 item key := by
  obtain ⟨hash, hget, hcheck⟩ := hvalue order.hash (.head _)
  obtain ⟨text, htext⟩ := exists_hashKeyText base64 hcheck
  cases hrange : order.range with
  | none => exact ⟨⟨hash, text, none⟩, hget, hcheck, htext, by rw [hrange]⟩
  | some attr =>
    obtain ⟨value, hgetR, hcheckR⟩ := hvalue attr (by simp [attributes, hrange])
    obtain ⟨r, hr⟩ := exists_rangeKey hbd hcheckR
    cases rangeKey_toValue hr
    refine ⟨⟨hash, text, some r⟩, hget, hcheck, htext, ?_⟩
    rw [hrange]
    exact ⟨r, rfl, hgetR, hcheckR, hr⟩

theorem holdsKey_of_restorable (hbd : crates.bd.Documented)
    {keySchema attributeDefinitions schema limits}
    (horder : resolve keySchema attributeDefinitions = .ok order)
    (hschema : RestorableKeySchema.resolve keySchema attributeDefinitions = .ok schema)
    (h : validateRestorableItem limits item schema = .ok ()) :
    ∃ key, order.HoldsKey crates.bd crates.base64 item key := by
  refine exists_holdsKey hbd _ fun attr hattr => ?_
  obtain ⟨⟨element, hmem, hname⟩, hty⟩ := (resolve_ok horder).1 attr hattr
  obtain ⟨attributes, hattributes, hmk⟩ := unbind hschema
  cases hmk
  obtain ⟨keyAttribute, hkey, hresolved⟩ := forall₂_mem_left (mapM_eq_ok.mp hattributes) hmem
  have hcheck := forM_eq_ok.mp (check_then_eq_ok.mp (mapError_eq_ok.mp h)).1 keyAttribute hkey
  obtain ⟨-, hcheck⟩ := check_then_eq_ok.mp (mapError_eq_ok.mp hcheck)
  rw [typeOf, ← hname] at hty
  rw [RestorableKeySchema.resolveAttribute] at hresolved
  split at hresolved
  case h_1 => cases hresolved
  case h_3 => cases hresolved
  case h_2 d hdefs =>
    rw [hdefs] at hty
    cases hresolved
    have htype : d.attributeType = attr.2 := Except.ok.inj hty
    rw [← hname, ← htype]
    cases hget : get? item element.attributeName with
    | none => simp [hget] at hcheck
    | some value =>
      simp only [hget] at hcheck
      exact ⟨value, rfl, mapError_eq_ok.mp (check_then_eq_ok.mp hcheck).1⟩

variable {key : CheckedKey}

theorem holdsKey_toItem {bd base64}
    (hdistinct : ∀ range, order.range = some range → range.1 ≠ order.hash.1)
    (h : order.HoldsKey bd base64 item key) :
    order.HoldsKey bd base64 ((new key).toItem order) key ∧
      order.validateKeyItem ((new key).toItem order) = .ok () := by
  have hr := h.range
  cases hrange : order.range with
  | none =>
    simp only [hrange] at hr
    have hitem : (new key).toItem order = [(order.hash.1, key.hash)] := by
      simp [toItem, new, keyItem, hrange]
    rw [hitem]
    refine ⟨⟨by simp [get?], h.hashChecked, h.hashText, by rw [hrange]; exact hr⟩, ?_⟩
    simp [validateKeyItem, hrange, attributes, get?, h.hashChecked]
  | some attr =>
    obtain ⟨name, ty⟩ := attr
    simp only [hrange] at hr
    obtain ⟨r, hkey, hget, hcheck, hparsed⟩ := hr
    have hne : name ≠ order.hash.1 := hdistinct _ hrange
    have hitem : (new key).toItem order = insert [(order.hash.1, key.hash)] name r.toValue := by
      simp [toItem, new, keyItem, hrange, hkey]
    have hhash : get? (insert [(order.hash.1, key.hash)] name r.toValue)
        order.hash.1 = some key.hash := by
      rw [get?_insert_of_ne _ _ hne]
      simp [get?]
    have hlength : (insert [(order.hash.1, key.hash)] name r.toValue).length = 2 := by
      rw [length_insert _ (by simp [get?, hne.symm])]
      rfl
    rw [hitem]
    refine ⟨⟨hhash, h.hashChecked, h.hashText, ?_⟩, ?_⟩
    · rw [hrange]
      exact ⟨r, hkey, get?_insert_self .., hcheck, hparsed⟩
    · simp [validateKeyItem, hrange, attributes, hlength, hhash, h.hashChecked,
      hcheck]

/-! ## Digests -/

theorem hexDigit_lower : ∀ n < 16,
    (isAsciiDigit (hexDigit n) || ('a' ≤ hexDigit n && hexDigit n ≤ 'f')) = true ∧
      (hexDigit n).utf8Size = 1 := by
  decide

theorem lowerHex_hexEncode (bytes) : lowerHex (hexEncode bytes) (2 * bytes.length) = true := by
  have hdigits (b : UInt8) : b.toNat / 16 < 16 ∧ b.toNat % 16 < 16 := by
    have := b.toNat_lt
    omega
  have hsize (cs : List Char) (h : ∀ c ∈ cs, c.utf8Size = 1) :
      (String.ofList cs).utf8ByteSize = cs.length := by
    induction cs with
    | nil => rfl
    | cons c cs ih =>
      rw [← singleton_append, String.ofList_append, String.utf8ByteSize_append,
        ih fun d hd => h d (.tail _ hd), length_append]
      simpa using h c (.head _)
  have hchars : ∀ c ∈ bytes.flatMap fun b => [hexDigit (b.toNat / 16), hexDigit (b.toNat % 16)],
      (isAsciiDigit c || ('a' ≤ c && c ≤ 'f')) = true ∧ c.utf8Size = 1 := by
    intro c hc
    obtain ⟨b, -, hb⟩ := mem_flatMap.mp hc
    rcases mem_cons.mp hb with rfl | hb
    · exact hexDigit_lower _ (hdigits b).1
    · rw [mem_singleton.mp hb]
      exact hexDigit_lower _ (hdigits b).2
  have hlength : (bytes.flatMap
      fun b => [hexDigit (b.toNat / 16), hexDigit (b.toNat % 16)]).length = 2 * bytes.length := by
    induction bytes with
    | nil => rfl
    | cons b bytes ih => simp; omega
  rw [lowerHex, hexEncode, hsize _ fun c hc => (hchars c hc).2, hlength, String.toList_ofList,
    Bool.and_eq_true, decide_eq_true_eq, all_eq_true]
  exact ⟨rfl, fun c hc => (hchars c hc).1⟩

/-! ## The files -/

theorem isChain_getLast {α : Type*} {R} {before xs rest : List α} (hne : xs ≠ [])
    (h : (before ++ xs ++ rest).IsChain R) : (xs.getLast?.toList ++ rest).IsChain R := by
  obtain ⟨-, hrest, hjoin⟩ := isChain_append.mp h
  obtain ⟨last, hlast⟩ : ∃ x, xs.getLast? = some x := ⟨_, getLast?_eq_some_getLast hne⟩
  rw [hlast]
  refine isChain_append.mpr ⟨.singleton _, hrest, fun x hx y hy => hjoin x ?_ y hy⟩
  rw [getLast?_append, hlast]
  exact hx

def Written (crates : BackupCrates) (order : Option KeyOrder) (file : String × List Item)
    (out : DataFileEntry × Bytes) : Prop :=
  ∃ range, out = fileOf crates file.1 file.2 range ∧ match order with
    | none => range = none
    | some order => ∃ r, range = some r ∧ RangeOf crates order file.2 r

variable {files : List (String × List Item)}

theorem writeFiles_unordered (hprint : ∀ file ∈ files, ∀ item ∈ file.2, PrintsLine crates item) :
    ∃ outs, writeFiles crates none files = .ok outs ∧
      List.Forall₂ (Written crates none) files outs := by
  induction files with
  | nil => exact ⟨[], rfl, .nil⟩
  | cons file files ih =>
    obtain ⟨outs, hwrite, houts⟩ := ih fun f hf => hprint f (.tail _ hf)
    have hfile := writeItem_unordered (hprint file (.head _)) .new
    refine ⟨fileOf crates file.1 file.2 none :: outs, ?_, .cons ⟨none, rfl, rfl⟩ houts⟩
    simp only [writeFiles, hfile, ok_bind, closeFile, hwrite]
    rfl

variable {before : Option Item}

theorem writeFiles_ordered (hbd : crates.bd.Documented) {tracker}
    (ht : Tracked crates order before [] tracker) (hcut : ∀ file ∈ files, file.2 ≠ [])
    (hkeys : ∀ file ∈ files, ∀ item ∈ file.2,
      ∃ key, order.HoldsKey crates.bd crates.base64 item key)
    (hprint : ∀ file ∈ files, ∀ item ∈ file.2, PrintsLine crates item)
    (hchain : (before.toList ++ files.flatMap snd).IsChain (order.Before crates.bd crates.base64)) :
    ∃ outs, writeFiles crates (some tracker) files = .ok outs ∧
      List.Forall₂ (Written crates (some order)) files outs := by
  induction files generalizing before tracker with
  | nil => exact ⟨[], rfl, .nil⟩
  | cons file files ih =>
    rw [flatMap_cons, ← append_assoc] at hchain
    obtain ⟨hhead, -, -⟩ := isChain_append.mp hchain
    obtain ⟨tracker', hfile, ht'⟩ := ht.writeItems hbd (hkeys file (.head _))
      (hprint file (.head _)) hhead .new
    have hne := hcut file (.head _)
    obtain ⟨range, next, hclose, hrange, hnext⟩ := ht'.closeFile hne files.isEmpty
    have hothers : ∃ outs, writeFiles crates next files = .ok outs ∧
        List.Forall₂ (Written crates (some order)) files outs := by
      cases hfiles : files with
      | nil => exact ⟨[], rfl, .nil⟩
      | cons f fs =>
        obtain ⟨t, rfl, hnextTracked⟩ := hnext (by rw [hfiles]; rfl)
        rw [← hfiles]
        exact ih hnextTracked (fun f hf => hcut f (.tail _ hf)) (fun f hf => hkeys f (.tail _ hf))
          (fun f hf => hprint f (.tail _ hf)) (isChain_getLast hne hchain)
    obtain ⟨outs, hwrite, houts⟩ := hothers
    refine ⟨fileOf crates file.1 file.2 (some range) :: outs, ?_,
      .cons ⟨some range, rfl, range, rfl, hrange⟩ houts⟩
    simp only [writeFiles, hfile, ok_bind, hclose, hwrite]
    rfl

/-! ## Validation -/

variable {items : List Item}

theorem lines_ne_nil (h : items ≠ []) : lines crates items ≠ [] := by
  cases items with
  | nil => exact absurd rfl h
  | cons item items => simp [lines, encodeItemLine]

theorem fileOf_uncompressed (key items range) :
    (fileOf crates key items range).1.uncompressedBytes = (lines crates items).length := by
  simp [fileOf, fromChecksums, DataFileEncoder.finish, DataFileEncoder.after, DataFileEncoder.new]

theorem fileOf_itemCount (key items range) :
    (fileOf crates key items range).1.itemCount = items.length := by
  simp [fileOf, fromChecksums, DataFileEncoder.finish, DataFileEncoder.after, DataFileEncoder.new]

variable {itemOrder : ItemOrder} {range : Option KeyRange} {seen : List String}

theorem validateEntry_fileOf (hcrates : crates.Documented) {key total}
    (hkey : keyFault key = none) (hseen : key ∉ seen) (hne : items ≠ [])
    (hrange : itemOrder = .unordered → range = none)
    (hsize : ¬2 ^ 64 ≤ total + (fileOf crates key items range).1.bytes) :
    validateEntry crates itemOrder (seen, total) (fileOf crates key items range).1 =
      .ok (key :: seen, total + (fileOf crates key items range).1.bytes) := by
  have hkeyEq : (fileOf crates key items range).1.key = key := rfl
  have hvalid : (fileOf crates key items range).1.validateKey = .ok () := by
    rw [validateKey, hkeyEq, hkey]
  have hsha : isSha256Hex (fileOf crates key items range).1.sha256 = true := by
    have h := lowerHex_hexEncode (crates.sha256 (crates.gzip.compress (lines crates items)))
    rw [hcrates.sha256_length] at h
    exact h
  have hmd5 : isMd5Base64 crates.base64 (fileOf crates key items range).1.md5 = true := by
    change isMd5Base64 crates.base64
      (crates.base64.encode (crates.md5 (crates.gzip.compress (lines crates items)))) = true
    rw [isMd5Base64, hcrates.md5_text_size, hcrates.base64.decode_encode]
    simp [hcrates.md5_length]
  have hcount : (fileOf crates key items range).1.itemCount ≠ 0 := by
    rw [fileOf_itemCount]
    exact fun h => hne (length_eq_zero_iff.mp h)
  have hbytes : (fileOf crates key items range).1.bytes ≠ 0 :=
    fun h => hcrates.compress_ne_nil _ (length_eq_zero_iff.mp h)
  have huncompressed : (fileOf crates key items range).1.uncompressedBytes ≠ 0 := by
    rw [fileOf_uncompressed]
    exact fun h => lines_ne_nil hne (length_eq_zero_iff.mp h)
  have hranged : ¬(itemOrder = .unordered ∧ range.isSome = true) := by
    rintro ⟨hunordered, hsome⟩
    simp [hrange hunordered] at hsome
  simp only [validateEntry, hvalid, ok_bind]
  have hrangeEq : (fileOf crates key items range).1.keyRange = range := rfl
  simp only [hkeyEq, hrangeEq, hseen, hranged, hsha, hmd5, hcount, hbytes, huncompressed, hsize,
    not_true_eq_false, or_self, if_false, pure_eq_ok]

variable {outs : List (DataFileEntry × Bytes)}

theorem validateEntries (hcrates : crates.Documented) {order}
    (horder : itemOrder = .unordered → order = none)
    (hwritten : List.Forall₂ (Written crates order) files outs)
    (hnames : ∀ file ∈ files, keyFault file.1 = none)
    (hcut : ∀ file ∈ files, file.2 ≠ []) (hdistinct : (files.map fst).Nodup)
    (hseen : ∀ file ∈ files, file.1 ∉ seen) {sum total}
    (htotal : (outs.map fst).foldlM (fun sum e =>
      if 2 ^ 64 ≤ sum + e.bytes then none else some (sum + e.bytes)) sum = some total) :
    ∃ seen', (outs.map fst).foldlM (validateEntry crates itemOrder)
      (seen, sum) = .ok (seen', total) := by
  induction hwritten generalizing seen sum with
  | nil =>
    cases htotal
    exact ⟨seen, rfl⟩
  | @cons file out files outs hfile _ ih =>
    obtain ⟨range, rfl, hrange⟩ := hfile
    rw [map_cons, nodup_cons] at hdistinct
    rw [map_cons, foldlM_cons] at htotal
    split at htotal
    · cases htotal
    rename_i hsize
    have hentry := validateEntry_fileOf hcrates (hnames file (.head _))
      (hseen file (.head _)) (hcut file (.head _))
      (fun h => by rw [horder h] at hrange; exact hrange) hsize
    rw [map_cons, foldlM_cons, hentry]
    refine ih (fun f hf => hnames f (.tail _ hf))
      (fun f hf => hcut f (.tail _ hf)) hdistinct.2 (fun f hf hmem => ?_) htotal
    rcases mem_cons.mp hmem with heq | hmem
    · exact hdistinct.1 (heq ▸ mem_map_of_mem hf)
    · exact hseen f (.tail _ hf) hmem

theorem RangeOf.ends (hdistinct : ∀ range, order.range = some range →
      range.1 ≠ order.hash.1) {range} (h : RangeOf crates order items range) :
    ∃ first last firstKey lastKey, items.head? = some first ∧ items.getLast? = some last ∧
      order.HoldsKey crates.bd crates.base64 first firstKey ∧
      order.HoldsKey crates.bd crates.base64 last lastKey ∧
      RangeHolds crates order range firstKey lastKey ∧
      order.validateKeyItem range.first = .ok () ∧ order.validateKeyItem range.last = .ok () := by
  obtain ⟨first, firstKey, hhead, hfirst, hrangeFirst⟩ := h.first
  obtain ⟨last, lastKey, hlast, hlastKey, hrangeLast⟩ := h.last
  obtain ⟨hholds, hvalid⟩ := holdsKey_toItem hdistinct hfirst
  obtain ⟨hholds', hvalid'⟩ := holdsKey_toItem hdistinct hlastKey
  rw [← hrangeFirst] at hholds hvalid
  rw [← hrangeLast] at hholds' hvalid'
  exact ⟨first, last, firstKey, lastKey, hhead, hlast, hfirst, hlastKey, ⟨hholds, hholds'⟩, hvalid,
    hvalid'⟩

theorem rank_le_of_chain (hchain : items.IsChain (order.Before crates.bd crates.base64))
    {last lastKey} (hlast : items.getLast? = some last)
    (hlastKey : order.HoldsKey crates.bd crates.base64 last lastKey) (hitem : item ∈ items)
    (hkey : order.HoldsKey crates.bd crates.base64 item key) :
    key.rank ≤ lastKey.rank := by
  obtain ⟨ys, rfl⟩ := getLast?_eq_some_iff.mp hlast
  rcases mem_append.mp hitem with hmem | hmem
  · obtain ⟨ka, kb, ha, hb, hlt⟩ := (pairwise_append.mp hchain.pairwise).2.2 item hmem last
      (mem_singleton_self _)
    cases hkey.unique ha
    cases hlastKey.unique hb
    exact hlt.le
  · cases mem_singleton.mp hmem
    cases hkey.unique hlastKey
    exact le_rfl

theorem validateRanges (hbd : crates.bd.Documented)
    (hdistinct : ∀ range, order.range = some range → range.1 ≠ order.hash.1)
    (hwritten : List.Forall₂ (Written crates (some order)) files outs) {previous}
    (hprevious : ∀ item ∈ previous, ∃ prev key, before = some prev ∧
      order.HoldsKey crates.bd crates.base64 prev key ∧
      order.HoldsKey crates.bd crates.base64 item key)
    (hchain : (before.toList ++ files.flatMap snd).IsChain (order.Before crates.bd crates.base64)) :
    ∃ next, (outs.map fst).foldlM (validateRange crates order) previous = .ok next := by
  induction hwritten generalizing before previous with
  | nil => exact ⟨previous, rfl⟩
  | @cons file out files outs hfile _ ih =>
    obtain ⟨-, rfl, range, rfl, hrange⟩ := hfile
    obtain ⟨first, last, firstKey, lastKey, hhead, hlast, hfirst, hlastHolds, hends, hvalidFirst,
      hvalidLast⟩ := hrange.ends hdistinct
    rw [flatMap_cons, ← append_assoc] at hchain
    obtain ⟨hfileChain, -, -⟩ := isChain_append.mp hchain
    obtain ⟨-, hitems, hstart⟩ := isChain_append.mp hfileChain
    have hne : file.2 ≠ [] := fun h => by simp [h] at hhead
    have hle : firstKey.cmp crates.bd lastKey ≠ .gt := by
      rw [(hends.first.compares hbd hends.last).ne_gt]
      exact rank_le_of_chain hitems hlast hlastHolds (mem_of_mem_head? hhead) hfirst
    have hfollows : checkFollows crates order previous
        (fileOf crates file.1 file.2 (some range)).1 range = .ok () := by
      cases hprev : previous with
      | none => rfl
      | some prev =>
        obtain ⟨item, key, rfl, hitem, hkey⟩ := hprevious prev hprev
        obtain ⟨ka, kb, ha, hb, hlt⟩ := hstart item (by simp) first hhead
        cases hitem.unique ha
        cases hfirst.unique hb
        have hcompare : order.compare crates.bd crates.base64 prev range.first = .ok .lt := by
          rw [hkey.compare_eq hends.first, (hkey.compares hbd hends.first).eq_lt.mpr hlt]
        simp [checkFollows, compareKeys, hcompare, Except.mapError]
    have hentry : validateRange crates order previous
        (fileOf crates file.1 file.2 (some range)).1 = .ok (some range.last) := by
      have hsome : (fileOf crates file.1 file.2 (some range)).1.keyRange = some range := rfl
      simp [validateRange, hsome, hvalidFirst, hvalidLast,
        compareKeys, hends.first.compare_eq hends.last, hle, hfollows,
        Except.mapError]
    rw [map_cons, foldlM_cons, hentry]
    refine ih (fun item hitem => ?_) (isChain_getLast hne hchain)
    cases hitem
    exact ⟨last, lastKey, hlast, hlastHolds, hends.last⟩

/-! ## The manifest's own text -/

theorem valueAsWritten_of_checked (h : checkKeyValue name ty value = .ok ()) (name') :
    valueAsWritten (name', value) = .ok () := by
  cases value with
  | n n =>
    have hnormal : validateAndNormalizeNumber n = .ok n :=
      checkNormalNumber_eq_ok.mp (check_then_eq_ok.mp (check_then_eq_ok.mp h).2).2
    simp [valueAsWritten, hnormal]
  | _ => rfl

theorem keyItemAsWritten_toItem (h : order.HoldsKey crates.bd crates.base64 item key) :
    keyItemAsWritten ((new key).toItem order) = .ok () := by
  refine forM_eq_ok.mpr fun e he => ?_
  have hhash := valueAsWritten_of_checked h.hashChecked order.hash.1
  have hr := h.range
  cases hrange : order.range with
  | none =>
    simp only [toItem, keyItem, hrange, mem_singleton] at he
    rw [he]
    exact hhash
  | some attr =>
    simp only [hrange] at hr
    obtain ⟨r, hkey, -, hcheck, -⟩ := hr
    simp only [toItem, new, keyItem, hrange, hkey] at he
    rcases mem_insert he with rfl | he
    · exact valueAsWritten_of_checked hcheck attr.1
    · rw [mem_singleton.mp he]
      exact hhash

variable {file : String × List Item} {out : DataFileEntry × Bytes}

theorem rangeAsWritten_of_written {order} (h : Written crates order file out) :
    out.1.rangeAsWritten = .ok () := by
  obtain ⟨range, rfl, hrange⟩ := h
  have hentry : (fileOf crates file.1 file.2 range).1.keyRange = range := rfl
  cases order with
  | none =>
    cases hrange
    simp [rangeAsWritten, hentry]
  | some order =>
    obtain ⟨r, rfl, hr⟩ := hrange
    obtain ⟨_, firstKey, -, hfirst, hrangeFirst⟩ := hr.first
    obtain ⟨_, lastKey, -, hlast, hrangeLast⟩ := hr.last
    simp [rangeAsWritten, hentry, hrangeFirst, hrangeLast,
      keyItemAsWritten_toItem hfirst, keyItemAsWritten_toItem hlast]

/-! ## Reading back -/

structure Ascends (crates : BackupCrates) (order : KeyOrder) (items : List Item)
    (first last : CheckedKey) : Prop where
  chain : items.IsChain (order.Before crates.bd crates.base64)
  keys : ∀ item ∈ items, ∃ key, order.HoldsKey crates.bd crates.base64 item key
  head : ∀ item ∈ items.head?, order.HoldsKey crates.bd crates.base64 item first
  last : ∃ item, items.getLast? = some item ∧ order.HoldsKey crates.bd crates.base64 item last

section

variable {first last : CheckedKey} {done rest : List Item} {check : KeyRangeCheck}

theorem CheckedSoFar.check_next (hbd : crates.bd.Documented) {item firstItem lastItem}
    (hfirst : order.HoldsKey crates.bd crates.base64 firstItem first)
    (hlastItem : order.HoldsKey crates.bd crates.base64 lastItem last)
    (hfile : Ascends crates order (done ++ item :: rest) first last)
    (hc : CheckedSoFar crates order first last done check) :
    ∃ check', check.check crates.bd crates.base64 item = .ok check' ∧
      CheckedSoFar crates order first last (done ++ [item]) check' := by
  obtain ⟨key, hkey⟩ := hfile.keys item (by simp)
  have hchecked : check.tracker.order.checkedKey crates.bd crates.base64 item = .ok key := by
    rw [hc.sameOrder]
    exact checkedKey_eq_ok.mpr hkey
  have hstart : ¬(check.tracker.items + 1 = 1 ∧ key.cmp crates.bd (new first).asChecked ≠ .eq) := by
    rintro ⟨hitems, hne⟩
    have hdone : done = [] := length_eq_zero_iff.mp (by rw [← hc.items]; omega)
    have hhead := hfile.head item (by rw [hdone]; rfl)
    rw [hfirst.asChecked_new] at hne
    exact hne ((hkey.compares hbd hfirst).eq_eq.mpr (by rw [hkey.unique hhead]))
  have hbound : key.cmp crates.bd (new last).asChecked ≠ .gt := by
    obtain ⟨la, hla, hlaKey⟩ := hfile.last
    rw [hlastItem.asChecked_new, (hkey.compares hbd hlastItem).ne_gt]
    exact rank_le_of_chain hfile.chain hla hlaKey (by simp) hkey
  have hpush : ∃ tracker, check.tracker.pushChecked crates.bd key = .ok tracker := by
    rw [KeyRangeTracker.pushChecked]
    cases hlatest : check.tracker.latest with
    | none => exact ⟨_, rfl⟩
    | some latest =>
      have hprev := hc.latest
      cases hlast : done.getLast? with
      | none => simp [hlast, hlatest] at hprev
      | some prev =>
        simp only [hlast] at hprev
        obtain ⟨prevKey, hprevKey, hheld⟩ := hprev
        cases hlatest.symm.trans hheld
        obtain ⟨ka, kb, ha, hb, hlt⟩ :=
          (isChain_append.mp hfile.chain).2.2 prev hlast item rfl
        cases hprevKey.unique ha
        cases hkey.unique hb
        simp [hprevKey.asChecked_new, (hprevKey.compares hbd hkey).eq_lt.mpr hlt]
  obtain ⟨tracker, hpush⟩ := hpush
  have hcheck : check.check crates.bd crates.base64 item = .ok { check with tracker } := by
    simp only [KeyRangeCheck.check, hc.range, hchecked, ok_bind]
    rw [if_neg hstart, if_neg hbound, hpush]
    rfl
  exact ⟨_, hcheck, hc.step hbd hfirst hcheck⟩

theorem CheckedSoFar.check_end (hbd : crates.bd.Documented)
    (hfile : Ascends crates order done first last)
    (hc : CheckedSoFar crates order first last done check) : check.finish crates.bd = .ok () := by
  obtain ⟨item, hitem, hholds⟩ := hfile.last
  have hlatest := hc.latest
  simp only [hitem] at hlatest
  obtain ⟨key, hkey, hheld⟩ := hlatest
  cases hkey.unique hholds
  have hcmp : last.cmp crates.bd last = .eq := (hkey.compares hbd hkey).eq_eq.mpr rfl
  simp [KeyRangeCheck.finish, hc.range, hheld, hkey.asChecked_new, hcmp]

end

structure Reading (crates : BackupCrates) (entry : DataFileEntry) (content : Bytes)
    (done rest : List Item) (decoder : DataFileDecoder) : Prop where
  source : decoder.source = ⟨lines crates rest, none⟩
  failed : decoder.failed = none
  finished : decoder.finished = false
  expectations : decoder.expectations = entry.expectations
  compressed : decoder.compressed = content
  items : decoder.itemsDecoded = done.length
  bytes : decoder.bytesDecoded = (lines crates done).length

section

variable {key : String} {items done rest : List Item} {decoder : DataFileDecoder}

theorem Reading.next (hbase64 : crates.base64.Documented) (hitem : WireItem item)
    (hprint : PrintsLine crates item) (hitems : done ++ item :: rest = items)
    (hd : Reading crates (fileOf crates key items range).1 (fileOf crates key items range).2 done
      (item :: rest) decoder) :
    ∃ next, decoder.nextItem crates = (.ok (some item), next) ∧
      Reading crates (fileOf crates key items range).1 (fileOf crates key items range).2
        (done ++ [item]) rest next := by
  have hline : decoder.source.readCappedLine =
      .ok (encodeItemLine crates item, ⟨lines crates rest, none⟩) := by
    rw [hd.source]
    exact readCappedLine_line hprint (lines crates rest)
  have hne : encodeItemLine crates item ≠ [] := by simp [encodeItemLine]
  have hsize : checkRunningSize decoder.expectations.uncompressedBytes
      (decoder.bytesDecoded + (encodeItemLine crates item).length) = .ok () := by
    have hle : (lines crates done).length + (encodeItemLine crates item).length ≤
        (lines crates items).length := by
      rw [← hitems]
      simp only [lines, flatMap_append, flatMap_cons, length_append]
      omega
    rw [hd.expectations, hd.bytes]
    simp only [checkRunningSize, DataFileEntry.expectations, fileOf_uncompressed]
    rw [if_neg (Nat.not_lt.mpr hle)]
  let next : DataFileDecoder :=
    { decoder with
      source := ⟨lines crates rest, none⟩
      bytesDecoded := decoder.bytesDecoded + (encodeItemLine crates item).length
      itemsDecoded := decoder.itemsDecoded + 1 }
  have hinner : decoder.nextItemInner crates = .ok (some item, next) := by
    simp [nextItemInner, hline, hne, hsize,
      parseItemLine_print hbase64 hitem hprint, Except.mapError, next]
  have hnext : decoder.nextItem crates = (.ok (some item), next) := by
    simp [nextItem, hd.failed, hd.finished, hinner]
  exact ⟨next, hnext, ⟨rfl, hd.failed, hd.finished, hd.expectations, hd.compressed,
    by simp [next, hd.items], by simp [next, hd.bytes, lines]⟩⟩

theorem Reading.finish
    (hd : Reading crates (fileOf crates key items range).1 (fileOf crates key items range).2 items []
      decoder) : ∃ next, decoder.nextItem crates = (.ok none, next) := by
  have hline : decoder.source.readCappedLine = .ok ([], ⟨[], none⟩) := by
    rw [hd.source]
    rfl
  have hdigest : decoder.expectations.verifyDigest (.of crates decoder.compressed) = .ok () := by
    rw [hd.expectations, hd.compressed]
    simp [DataFileExpectations.verifyDigest, DataFileExpectations.verifyCompressedSize,
      DataFileEntry.expectations, verifyExpected, fileOf, fromChecksums,
      DataFileEncoder.finish]
  have hsize : decoder.expectations.verifyCompressedSize decoder.compressed.length = .ok () :=
    (check_then_eq_ok.mp hdigest).1
  have hcounts : verifyExpected decoder.expectations.itemCount decoder.itemsDecoded
      (.itemCountMismatch · decoder.itemsDecoded) = .ok () := by
    rw [hd.expectations, hd.items]
    exact verifyExpected_eq_ok.mpr (fileOf_itemCount ..)
  have hbytes : verifyExpected decoder.expectations.uncompressedBytes decoder.bytesDecoded
      (.byteCountMismatch · decoder.bytesDecoded) = .ok () := by
    rw [hd.expectations, hd.bytes]
    exact verifyExpected_eq_ok.mpr (fileOf_uncompressed ..)
  have hchecks : decoder.finishChecks crates = .ok () := by
    cases hhashing : decoder.hashing <;>
      simp [finishChecks, hdigest, hsize, hcounts, hbytes]
  have hinner : decoder.nextItemInner crates = .ok (none, { decoder with finished := true }) := by
    simp [nextItemInner, hline, hchecks]
  simp [nextItem, hd.failed, hd.finished, hinner]

end

def Checking (crates : BackupCrates) (order : Option KeyOrder) (items done : List Item)
    (check : Option KeyRangeCheck) : Prop :=
  match order with
  | none => check = none
  | some order => ∃ c first last, check = some c ∧ Ascends crates order items first last ∧
      CheckedSoFar crates order first last done c

theorem streams_rest (hcrates : crates.Documented) {order key done rest}
    (hitems : done ++ rest = items) (hwire : ∀ item ∈ items, WireItem item)
    (hprint : ∀ item ∈ items, PrintsLine crates item) {reader} (hfailed : reader.checkFailed = none)
    (hended : reader.ended = false)
    (hdecoder : Reading crates (fileOf crates key items range).1 (fileOf crates key items range).2
      done rest reader.decoder) (hcheck : Checking crates order items done reader.check) :
    DataFileReader.Streams crates reader rest := by
  induction rest generalizing done reader with
  | nil =>
    rw [append_nil] at hitems
    subst hitems
    obtain ⟨next, hnext⟩ := hdecoder.finish
    have hrun : DataFileReader.runCheck crates reader.check none = .ok reader.check := by
      cases order with
      | none =>
        rw [show reader.check = none from hcheck]
        rfl
      | some order =>
        obtain ⟨c, first, last, hsome, hfile, hc⟩ := hcheck
        rw [hsome, DataFileReader.runCheck, hc.check_end hcrates.bd hfile]
        rfl
    have hend : reader.nextItem crates =
        (.ok none, { reader with decoder := next, ended := true }) := by
      simp [DataFileReader.nextItem, hfailed, hended, hnext, hrun]
    exact .done hend
  | cons item rest ih =>
    have hmem : item ∈ items := by simp [← hitems]
    obtain ⟨next, hnext, hreading⟩ :=
      hdecoder.next hcrates.base64 (hwire item hmem) (hprint item hmem) hitems
    have hrun : ∃ check, DataFileReader.runCheck crates reader.check (some item) = .ok check ∧
        Checking crates order items (done ++ [item]) check := by
      cases order with
      | none =>
        rw [show reader.check = none from hcheck]
        exact ⟨none, rfl, rfl⟩
      | some order =>
        obtain ⟨c, first, last, hsome, hfile, hc⟩ := hcheck
        obtain ⟨head, hhead⟩ : ∃ x, items.head? = some x :=
          ⟨_, head?_eq_some_head (ne_nil_of_mem hmem)⟩
        obtain ⟨la, -, hla⟩ := hfile.last
        obtain ⟨c', hcheck', hc'⟩ :=
          hc.check_next hcrates.bd (hfile.head head hhead) hla (hitems ▸ hfile)
        rw [hsome, DataFileReader.runCheck, hcheck']
        exact ⟨some c', rfl, c', first, last, rfl, hfile, hc'⟩
    obtain ⟨check, hrun, hcheck'⟩ := hrun
    have hitem : reader.nextItem crates =
        (.ok (some item), { reader with decoder := next, check, ended := false }) := by
      simp [DataFileReader.nextItem, hfailed, hended, hnext, hrun]
    exact .item hitem (ih (by rwa [append_assoc, singleton_append]) hfailed rfl hreading hcheck')

variable {manifest : ExtenddbManifest}

theorem reader_streams (hcrates : crates.Documented) {order} (horder : match order with
      | none => manifest.itemOrder = .unordered
      | some order => manifest.itemOrder = .keyOrdered ∧ manifest.keyOrder = .ok order ∧
          (∀ range, order.range = some range → range.1 ≠ order.hash.1) ∧
          file.2.IsChain (order.Before crates.bd crates.base64) ∧
          ∀ item ∈ file.2, ∃ key, order.HoldsKey crates.bd crates.base64 item key)
    (hwritten : Written crates order file out) (hname : keyFault file.1 = none)
    (hwire : ∀ item ∈ file.2, WireItem item) (hprint : ∀ item ∈ file.2, PrintsLine crates item)
    (hashing : Bool) :
    ∃ reader, manifest.reader crates out.1 out.2 hashing = .ok reader ∧
      DataFileReader.Streams crates reader file.2 := by
  obtain ⟨range, rfl, hrange⟩ := hwritten
  have hdecoder : (fileOf crates file.1 file.2 range).1.decoder crates
      (fileOf crates file.1 file.2 range).2 hashing = .ok (.openFile crates
        (fileOf crates file.1 file.2 range).2 (fileOf crates file.1 file.2 range).1.expectations
        hashing) := by
    have hkey : (fileOf crates file.1 file.2 range).1.key = file.1 := rfl
    simp [decoder, validateKey, hkey, hname]
  have hreading : Reading crates (fileOf crates file.1 file.2 range).1
      (fileOf crates file.1 file.2 range).2 [] file.2 (.openFile crates
        (fileOf crates file.1 file.2 range).2 (fileOf crates file.1 file.2 range).1.expectations
        hashing) := by
    refine ⟨?_, rfl, rfl, rfl, rfl, rfl, rfl⟩
    -- the source has exactly the recorded number of bytes
    have hbytes : (fileOf crates file.1 file.2 range).1.expectations.compressedBytes =
        some (crates.gzip.compress (lines crates file.2)).length := rfl
    rw [openFile, hbytes]
    simp [GzipCrate.openSource, hcrates.inflate_compress]
  have hrangeCheck : ∃ check, manifest.rangeCheck crates (fileOf crates file.1 file.2 range).1 =
      .ok check ∧ Checking crates order file.2 [] check := by
    have hkeyRange : (fileOf crates file.1 file.2 range).1.keyRange = range := rfl
    cases order with
    | none =>
      cases hrange
      exact ⟨none, by simp [rangeCheck, horder, hkeyRange], rfl⟩
    | some order =>
      obtain ⟨hordered, hresolved, hdistinct, hchain, hkeys⟩ := horder
      obtain ⟨r, rfl, hr⟩ := hrange
      obtain ⟨first, last, firstKey, lastKey, hhead, hlast, hfirst, hlastHolds, hends, hvalidFirst,
        hvalidLast⟩ := hr.ends hdistinct
      have hascends : Ascends crates order file.2 firstKey lastKey :=
        ⟨hchain, hkeys, fun item hitem => by cases hhead.symm.trans hitem; exact hfirst,
          last, hlast, hlastHolds⟩
      refine ⟨some (.new crates.bd crates.base64 order r), ?_, _, firstKey, lastKey, rfl, hascends,
        rfl, ?_, rfl, .nil, rfl, by simp⟩
      · simp [rangeCheck, hordered, hkeyRange, hresolved]
      · simp [KeyRangeCheck.new, KeyRangeCheck.endpoint, hvalidFirst, hvalidLast,
        checkedKey_eq_ok.mpr hends.first, checkedKey_eq_ok.mpr hends.last,
        Except.mapError]
  obtain ⟨check, hcheck, hchecking⟩ := hrangeCheck
  have hreader : manifest.reader crates (fileOf crates file.1 file.2 range).1
      (fileOf crates file.1 file.2 range).2 hashing = .ok (.new (.openFile crates
        (fileOf crates file.1 file.2 range).2 (fileOf crates file.1 file.2 range).1.expectations
        hashing) check) := by
    rw [reader, hcheck, hdecoder]
    rfl
  exact ⟨_, hreader, streams_rest hcrates (nil_append _) hwire hprint rfl rfl hreading hchecking⟩

/-! ## The whole backup -/

def OrderedBy (crates : BackupCrates) (header : ManifestHeader) (files : List (String × List Item)) :
    Option KeyOrder → Prop
  | none => header.itemOrder = .unordered
  | some order => header.itemOrder = .keyOrdered ∧
      resolve header.sourceTable.keySchema header.sourceTable.attributeDefinitions =
        .ok order ∧
      (files.flatMap snd).IsChain (order.Before crates.bd crates.base64) ∧
      ∀ file ∈ files, ∀ item ∈ file.2, ∃ key, order.HoldsKey crates.bd crates.base64 item key

variable {header : ManifestHeader}

theorem assemble_ok {entries} (h : header.assemble entries = .ok manifest) :
    ∃ total, totalBytes entries = some total ∧ total < 2 ^ 63 ∧
      manifest = ⟨currentFormatVersion, header.identity, total, header.itemOrder, header.sourceTable,
        entries⟩ := by
  rw [assemble] at h
  cases htotal : totalBytes entries with
  | none => simp [htotal] at h
  | some total =>
    simp only [htotal] at h
    split at h
    · cases h
    cases h
    exact ⟨total, rfl, by omega, rfl⟩

theorem forall₂_imp_mem {α β : Type*} {R S} {xs : List α} {ys : List β}
    (himp : ∀ x y, x ∈ xs → R x y → S x y) (h : List.Forall₂ R xs ys) : List.Forall₂ S xs ys := by
  induction h with
  | nil => exact .nil
  | cons hxy _ ih =>
    exact .cons (himp _ _ (.head _) hxy) (ih fun x y hx => himp x y (.tail _ hx))

section

variable (hcrates : crates.Documented) (hnames : ∀ file ∈ files, keyFault file.1 = none)
  {order : Option KeyOrder} (horder : OrderedBy crates header files order)
  (hwritten : List.Forall₂ (Written crates order) files outs)
  (hmanifest : header.assemble (outs.map fst) = .ok manifest)
include hcrates hnames horder hwritten hmanifest

theorem validate_written {validateIdentity} (htable : header.sourceTable.validate = .ok ())
    (hidentity : validateIdentity header.identity = .ok ())
    (hdistinct : (files.map fst).Nodup) (hcut : ∀ file ∈ files, file.2 ≠ []) :
    manifest.validate crates validateIdentity = .ok () := by
  obtain ⟨total, htotal, hfits, rfl⟩ := assemble_ok hmanifest
  have hunordered : header.itemOrder = .unordered → order = none := by
    intro h
    cases order with
    | none => rfl
    | some order => exact absurd (h.symm.trans horder.1) (by simp)
  obtain ⟨seen, hentries⟩ := validateEntries hcrates hunordered hwritten hnames hcut hdistinct
    (fun _ _ => not_mem_nil) htotal
  have hversion : checkFormatVersion currentFormatVersion = .ok () := rfl
  simp only [validate, hversion, htable, hidentity, ok_bind, validateDataFiles, hentries, hfits]
  cases order with
  | none =>
    rw [show header.itemOrder = .unordered from horder]
    rfl
  | some order =>
    obtain ⟨hordered, hresolve, hchain, -⟩ := horder
    have hstart : ∀ item ∈ (none : Option Item), ∃ prev key, (none : Option Item) = some prev ∧
        order.HoldsKey crates.bd crates.base64 prev key ∧
        order.HoldsKey crates.bd crates.base64 item key := by simp
    obtain ⟨next, hranges⟩ :=
      validateRanges hcrates.bd (resolve_ok hresolve).2 hwritten hstart hchain
    simp [hordered, ExtenddbManifest.keyOrder, hresolve, Except.mapError, hranges]

theorem read_written (hwire : ∀ file ∈ files, ∀ item ∈ file.2, WireItem item)
    (hprint : ∀ file ∈ files, ∀ item ∈ file.2, PrintsLine crates item) :
    List.Forall₂ (fun file out => ∀ hashing, ∃ reader,
      manifest.reader crates out.1 out.2 hashing = .ok reader ∧
        DataFileReader.Streams crates reader file.2) files outs := by
  obtain ⟨total, -, -, rfl⟩ := assemble_ok hmanifest
  refine forall₂_imp_mem (fun file out hfile hout => ?_) hwritten
  refine reader_streams hcrates ?_ hout (hnames file hfile) (hwire file hfile) (hprint file hfile)
  cases order with
  | none => exact horder
  | some order =>
    obtain ⟨hordered, hresolve, hchain, hkeys⟩ := horder
    refine ⟨hordered, ?_, (resolve_ok hresolve).2, ?_, hkeys file hfile⟩
    · simp [ExtenddbManifest.keyOrder, hresolve, Except.mapError]
    · obtain ⟨before, after, rfl⟩ := append_of_mem hfile
      rw [flatMap_append] at hchain
      exact (isChain_append.mp (isChain_append.mp hchain).2.1).1

end

/-- What is written for strictly ascending items, or for items in any order where the backup is
unordered, is accepted and read back, however the items are cut into files. -/
theorem written_read {crates : BackupCrates} (hcrates : crates.Documented) {text : ManifestText}
    {validateIdentity : ManifestIdentity → Except BackupError Unit} {header : ManifestHeader}
    {limits : RestorableLimits} {schema : RestorableKeySchema} {files : List (String × List Item)}
    (htable : header.sourceTable.validate = .ok ())
    (hidentity : validateIdentity header.identity = .ok ())
    (hnames : ∀ file ∈ files, keyFault file.1 = none)
    (hdistinct : (files.map fst).Nodup) (hcut : ∀ file ∈ files, file.2 ≠ [])
    (hschema : RestorableKeySchema.resolve header.sourceTable.keySchema
      header.sourceTable.attributeDefinitions = .ok schema)
    (hrestorable : ∀ file ∈ files, ∀ item ∈ file.2,
      validateRestorableItem limits item schema = .ok ())
    (hwire : ∀ file ∈ files, ∀ item ∈ file.2, WireItem item)
    (hprint : ∀ file ∈ files, ∀ item ∈ file.2, PrintsLine crates item)
    (horder : header.itemOrder = .keyOrdered → ∃ order,
      resolve header.sourceTable.keySchema header.sourceTable.attributeDefinitions =
        .ok order ∧
      (files.flatMap snd).Pairwise fun a b => order.compare crates.bd crates.base64 a b = .ok .lt) :
    ∃ tracker outs, header.tracker = .ok tracker ∧ writeFiles crates tracker files = .ok outs ∧
      ∀ manifest, header.assemble (outs.map fst) = .ok manifest →
        manifest.validate crates validateIdentity = .ok () ∧
        (text.formatVersion (text.print manifest) = .ok manifest.formatVersion →
          text.parse (text.print manifest) = .ok manifest →
          fromJsonBytes crates text validateIdentity (text.print manifest) =
            .ok manifest) ∧
        List.Forall₂ (fun file out => ∀ hashing, ∃ reader,
          manifest.reader crates out.1 out.2 hashing = .ok reader ∧
            DataFileReader.Streams crates reader file.2) files outs := by
  -- the writer's files and the order they are in
  have hfiles : ∃ order tracker outs, OrderedBy crates header files order ∧
      header.tracker = .ok tracker ∧ writeFiles crates tracker files = .ok outs ∧
      List.Forall₂ (Written crates order) files outs := by
    cases hitemOrder : header.itemOrder with
    | unordered =>
      obtain ⟨outs, hwrite, hwritten⟩ := writeFiles_unordered hprint
      exact ⟨none, none, outs, hitemOrder, by simp [tracker, hitemOrder], hwrite, hwritten⟩
    | keyOrdered =>
      obtain ⟨order, hresolve, hascending⟩ := horder hitemOrder
      have hkeys : ∀ file ∈ files, ∀ item ∈ file.2,
          ∃ key, order.HoldsKey crates.bd crates.base64 item key := fun file hfile item hitem =>
        holdsKey_of_restorable hcrates.bd hresolve hschema (hrestorable file hfile item hitem)
      have hbefore : (files.flatMap snd).Pairwise (order.Before crates.bd crates.base64) := by
        refine hascending.imp_of_mem fun ha hb hlt => ?_
        obtain ⟨fa, hfa, ha⟩ := mem_flatMap.mp ha
        obtain ⟨fb, hfb, hb⟩ := mem_flatMap.mp hb
        obtain ⟨ka, hka⟩ := hkeys fa hfa _ ha
        obtain ⟨kb, hkb⟩ := hkeys fb hfb _ hb
        rw [hka.compare_eq hkb, Except.ok.injEq] at hlt
        exact ⟨ka, kb, hka, hkb, (hka.compares hcrates.bd hkb).eq_lt.mp hlt⟩
      have hnew : Tracked crates order none [] (.new order) := ⟨rfl, rfl, by simp, rfl⟩
      obtain ⟨outs, hwrite, hwritten⟩ :=
        writeFiles_ordered hcrates.bd hnew hcut hkeys hprint hbefore.isChain
      exact ⟨some order, some (.new order), outs, ⟨hitemOrder, hresolve, hbefore.isChain, hkeys⟩,
        by simp [tracker, hitemOrder, hresolve, Except.mapError], hwrite, hwritten⟩
  obtain ⟨order, tracker, outs, hordered, htracker, hwrite, hwritten⟩ := hfiles
  refine ⟨tracker, outs, htracker, hwrite, fun manifest hmanifest => ?_⟩
  have hvalid := validate_written hcrates hnames hordered hwritten hmanifest htable hidentity
    hdistinct hcut
  refine ⟨hvalid, fun hversion hparse => ?_,
    read_written hcrates hnames hordered hwritten hmanifest hwire hprint⟩
  obtain ⟨total, -, -, rfl⟩ := assemble_ok hmanifest
  have hasWritten : (outs.map fst).forM rangeAsWritten = .ok () := by
    refine forM_eq_ok.mpr fun entry hentry => ?_
    obtain ⟨out, hout, rfl⟩ := mem_map.mp hentry
    obtain ⟨file, -, hfile⟩ := forall₂_mem_left hwritten.flip hout
    exact rangeAsWritten_of_written hfile
  have hsupported : checkFormatVersion currentFormatVersion = .ok () := rfl
  rw [fromJsonBytes, mapError_eq_ok.mpr hversion, mapError_eq_ok.mpr hparse]
  simp only [ok_bind, hsupported, hasWritten, hvalid, pure_eq_ok]

theorem letterCrates_documented : letterCrates.Documented where
  bd := BigDecimalCrate.reference_documented
  base64 := Base64Engine.standard_documented
  inflate_compress := fun _ => rfl
  compress_ne_nil := fun b => cons_ne_nil 31 b
  sha256_length := fun b => by simp [letterCrates]
  md5_length := fun b => by
    change (if _ then _ else _ : Bytes).length = 16
    split <;> rfl
  md5_text_size := fun b => by
    change (Base64Engine.standard.encode (if _ then _ else _)).utf8ByteSize = 24
    split <;> rfl

def letterHeader : ManifestHeader where
  identity := ⟨"", "", 0, "", ""⟩
  itemOrder := .keyOrdered
  sourceTable := ⟨[⟨"pk", .hash⟩], [⟨"pk", .s⟩], 0, 4, 0⟩

def letterText : ManifestText :=
  ⟨fun manifest => manifest.dataFiles.map fun entry => UInt8.ofNat entry.bytes, fun _ => .ok 1,
    fun _ => .ok (letterManifest 4)⟩

theorem written_read_letters :
    (letterManifest 4).validate letterCrates (fun _ => .ok ()) = .ok () ∧
      fromJsonBytes letterCrates letterText (fun _ => .ok ()) [5, 5] = .ok (letterManifest 4) ∧
      ∀ file ∈ letterFiles, ∀ hashing, ∃ reader,
        (letterManifest 4).reader letterCrates file.entry file.content hashing = .ok reader ∧
          DataFileReader.Streams letterCrates reader file.items := by
  let files : List (String × List Item) := [("data/0.json.gz", ['a', 'b'].map letterItem),
    ("data/1.json.gz", ['c', 'd'].map letterItem)]
  have hitems {P : Item → Prop} (ha : P (letterItem 'a')) (hb : P (letterItem 'b'))
      (hc : P (letterItem 'c')) (hd : P (letterItem 'd')) :
      ∀ file ∈ files, ∀ item ∈ file.2, P item := by
    simpa [files] using ⟨⟨ha, hb⟩, hc, hd⟩
  have hwire (c) : WireItem (letterItem c) := by
    refine ⟨pairwise_singleton .., ?_, ?_, ?_⟩ <;> simp only [letterItem, mem_singleton, forall_eq] <;>
      first | trivial | exact nofun
  obtain ⟨tracker, outs, htracker, hwrite, h⟩ := @written_read letterCrates letterCrates_documented
    letterText (fun _ => .ok ()) letterHeader (.ofConfig .default) ⟨[⟨"pk", .s, .hash⟩]⟩ files rfl rfl
    (by simp only [files, forall_mem_cons]; exact ⟨rfl, rfl, nofun⟩) (by decide) (by simp [files]) rfl
    (hitems rfl rfl rfl rfl) (hitems (hwire _) (hwire _) (hwire _) (hwire _))
    (hitems ⟨rfl, by decide, by decide⟩ ⟨rfl, by decide, by decide⟩ ⟨rfl, by decide, by decide⟩
      ⟨rfl, by decide, by decide⟩) fun _ => ⟨⟨("pk", .s), none⟩, rfl, by decide⟩
  cases htracker
  have houts : outs = letterFiles.map fun file => (file.entry, file.content) :=
    (Except.ok.inj hwrite).symm
  subst houts
  obtain ⟨hvalid, htext, hread⟩ := h (letterManifest 4) rfl
  obtain ⟨hfirst, hread⟩ := forall₂_cons.mp hread
  refine ⟨hvalid, htext rfl rfl, fun file hfile => ?_⟩
  rcases mem_pair.mp hfile with rfl | rfl
  · exact hfirst
  · exact (forall₂_cons.mp hread).1

end ExtendDb
