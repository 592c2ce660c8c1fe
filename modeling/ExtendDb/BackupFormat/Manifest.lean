import ExtendDb.BackupFormat.DataFile

/-!
# The manifest of a backup

The manifest lists the data files of a backup with their counts, sizes, digests and key ranges.
`validate` is run when it is written and when it is read;  `reader` opens one of its files.
-/

namespace ExtendDb

open Fallible

inductive ItemOrder where
  | keyOrdered
  | unordered
deriving DecidableEq

structure SourceTableSchema where
  keySchema : List KeySchemaElement
  attributeDefinitions : List AttributeDefinition
  /-- The bits of the float. -/
  tableCreationDateTime : UInt64
  itemCount : Int
  tableSizeBytes : Int

structure DataFileEntry where
  key : String
  itemCount : Nat
  sha256 : String
  md5 : String
  bytes : Nat
  uncompressedBytes : Nat
  keyRange : Option KeyRange

structure ManifestIdentity where
  backupArn : String
  backupName : String
  backupCreationDateTime : UInt64
  tableName : String
  tableArn : String

structure ExtenddbManifest where
  formatVersion : Nat
  identity : ManifestIdentity
  backupSizeBytes : Int
  itemOrder : ItemOrder
  sourceTable : SourceTableSchema
  dataFiles : List DataFileEntry

/-! ## Entries -/

def dropText : List Char → List Char → Option (List Char)
  | [], text => some text
  | _ :: _, [] => none
  | p :: ps, c :: cs => if p = c then dropText ps cs else none

def dropTextAtEnd (ending text : List Char) : Option (List Char) :=
  (dropText ending.reverse text.reverse).map List.reverse

def hasDots : List Char → Bool
  | [] => false
  | c :: cs => (c == '.' && cs.head? == some '.') || hasDots cs

def isAsciiDigit (c : Char) : Bool := '0' ≤ c && c ≤ '9'

namespace DataFileEntry

def fromChecksums (key : String) (checksums : DataFileChecksums) (keyRange : Option KeyRange) :
    DataFileEntry where
  key := key
  itemCount := checksums.itemCount
  sha256 := checksums.sha256Hex
  md5 := checksums.md5Base64
  bytes := checksums.compressedBytes
  uncompressedBytes := checksums.uncompressedBytes
  keyRange := keyRange

def keyFault (key : String) : Option String :=
  match dropText "data/".toList key.toList with
  | none => some "must start with the data/ prefix"
  | some name =>
    if name.isEmpty then some "names no file under data/"
    else if '/' ∈ name then some "must hold exactly one path segment under data/"
    else if '\\' ∈ name then some "must not contain a backslash"
    else if name = ['.'] ∨ name = ['.', '.'] ∨ hasDots name then
      some "must not contain a path-traversal component"
    else match dropTextAtEnd ".json.gz".toList name with
      | none => some "must end with .json.gz"
      | some digits =>
        if digits.isEmpty ∨ ¬digits.all isAsciiDigit then some "file stem must be all digits"
        else none

def validateKey (entry : DataFileEntry) : Except BackupError Unit :=
  match keyFault entry.key with
  | some reason => .error (.invalidDataFileKey entry.key reason)
  | none => .ok ()

def expectations (entry : DataFileEntry) : DataFileExpectations where
  sha256Hex := some entry.sha256
  md5Base64 := some entry.md5
  compressedBytes := some entry.bytes
  itemCount := some entry.itemCount
  uncompressedBytes := some entry.uncompressedBytes

def decoder (crates : BackupCrates) (entry : DataFileEntry) (compressed : Bytes)
    (hashing : Bool) : Except BackupError DataFileDecoder := do
  entry.validateKey
  pure (DataFileDecoder.openFile crates compressed entry.expectations hashing)

end DataFileEntry

/-! ## Validation -/

def lowerHex (s : String) (n : Nat) : Bool :=
  s.utf8ByteSize = n && s.toList.all fun c => isAsciiDigit c || ('a' ≤ c && c ≤ 'f')

def isSha256Hex (s : String) : Bool := lowerHex s 64

def isMd5Base64 (base64 : Base64Engine) (s : String) : Bool :=
  s.utf8ByteSize = 24 && (base64.decode s).any fun bytes => bytes.length = 16

def currentFormatVersion : Nat := 1

def checkFormatVersion (found : Nat) : Except BackupError Unit :=
  if 1 ≤ found ∧ found ≤ currentFormatVersion then .ok ()
  else .error (.unsupportedFormatVersion found currentFormatVersion)

/-- Neither infinite nor a NaN. -/
def isFinite (bits : UInt64) : Bool := bits.toNat / 2 ^ 52 % 2 ^ 11 ≠ 2 ^ 11 - 1

namespace SourceTableSchema

def checkNotNegative (name : String) (value : Int) : Except BackupError Unit :=
  if value < 0 then .error (.invalidManifest ("source_table." ++ name ++ " is negative"))
  else .ok ()

def checkKeyAttributes (definitions : List AttributeDefinition) :
    List String → List KeySchemaElement → Except BackupError Unit
  | _, [] => .ok ()
  | names, element :: rest => do
    if element.attributeName ∈ names then
      throw (.invalidManifest "source_table.key_schema names an attribute more than once")
    if (definitions.filter fun d => d.attributeName == element.attributeName).length ≠ 1 then
      throw (.invalidManifest "source_table key attribute has not one attribute definition")
    checkKeyAttributes definitions (element.attributeName :: names) rest

def validate (table : SourceTableSchema) : Except BackupError Unit := do
  checkNotNegative "item_count" table.itemCount
  checkNotNegative "table_size_bytes" table.tableSizeBytes
  if ¬isFinite table.tableCreationDateTime then
    throw (.invalidManifest "source_table.table_creation_date_time is not a finite number")
  let ranges := table.keySchema.dropWhile fun e => e.keyType ≠ .range
  if table.keySchema.head?.all (fun e => e.keyType = .range) then
    throw (.invalidManifest "source_table.key_schema has no HASH element before its RANGE elements")
  if ranges.any (fun e => e.keyType = .hash) then
    throw (.invalidManifest "source_table.key_schema lists a HASH element after a RANGE element")
  checkKeyAttributes table.attributeDefinitions [] table.keySchema

end SourceTableSchema

namespace ExtenddbManifest

variable (crates : BackupCrates)

def keyOrder (manifest : ExtenddbManifest) : Except BackupError KeyOrder :=
  (KeyOrder.resolve manifest.sourceTable.keySchema
    manifest.sourceTable.attributeDefinitions).mapError (.key ∘ .format)

def validateEntry (itemOrder : ItemOrder) (state : List String × Nat) (entry : DataFileEntry) :
    Except BackupError (List String × Nat) := do
  let (seen, total) := state
  entry.validateKey
  if entry.key ∈ seen then throw (.invalidDataFileKey entry.key "listed more than once")
  if itemOrder = .unordered ∧ entry.keyRange.isSome then
    throw (.invalidDataFileEntry entry.key "unordered manifest entry has a key_range")
  if ¬isSha256Hex entry.sha256 then
    throw (.invalidDataFileEntry entry.key "sha256 is not 64 lowercase hex digits")
  if ¬isMd5Base64 crates.base64 entry.md5 then
    throw (.invalidDataFileEntry entry.key "md5 is not the base64 of 16 bytes")
  if entry.itemCount = 0 then
    throw (.invalidDataFileEntry entry.key "a data file has no items")
  if entry.bytes = 0 ∨ entry.uncompressedBytes = 0 then
    throw (.invalidDataFileEntry entry.key "a file with items has zero bytes")
  if 2 ^ 64 ≤ total + entry.bytes then throw (.invalidManifest "data file sizes overflow")
  pure (entry.key :: seen, total + entry.bytes)

def compareKeys (order : KeyOrder) (a b : Item) : Except BackupError Ordering :=
  (order.compare crates.bd crates.base64 a b).mapError (.key ∘ .format)

def checkFollows (order : KeyOrder) (previousLast : Option Item) (entry : DataFileEntry)
    (range : KeyRange) : Except BackupError Unit :=
  match previousLast with
  | none => .ok ()
  | some prev => do
    if (← compareKeys crates order prev range.first) ≠ .lt then
      throw (.invalidManifest
        (entry.key ++ ": key_range overlaps or does not follow the previous file"))

def validateRange (order : KeyOrder) (previousLast : Option Item) (entry : DataFileEntry) :
    Except BackupError (Option Item) :=
  match entry.keyRange with
  | none => .error (.invalidDataFileEntry entry.key "key_ordered manifest entry has no key_range")
  | some range => do
    (order.validateKeyItem range.first).mapError (.key ∘ .format)
    (order.validateKeyItem range.last).mapError (.key ∘ .format)
    if (← compareKeys crates order range.first range.last) = .gt then
      throw (.invalidManifest (entry.key ++ ": key_range first is after last"))
    checkFollows crates order previousLast entry range
    pure (some range.last)

def validateDataFiles (manifest : ExtenddbManifest) : Except BackupError Unit := do
  let (_, total) ← manifest.dataFiles.foldlM (validateEntry crates manifest.itemOrder) ([], 0)
  -- the total is compared as an `i64`
  if ¬(total < 2 ^ 63 ∧ (total : Int) = manifest.backupSizeBytes) then
    throw (.invalidManifest "backup_size_bytes is not the total of the data files")
  match manifest.itemOrder with
  | .unordered => pure ()
  | .keyOrdered => do
    let order ← manifest.keyOrder
    let _ ← manifest.dataFiles.foldlM (validateRange crates order) none

def validate (validateIdentity : ManifestIdentity → Except BackupError Unit)
    (manifest : ExtenddbManifest) : Except BackupError Unit := do
  checkFormatVersion manifest.formatVersion
  manifest.sourceTable.validate
  validateIdentity manifest.identity
  manifest.validateDataFiles crates

/-! ## Reading -/

def rangeCheck (manifest : ExtenddbManifest) (entry : DataFileEntry) :
    Except BackupError (Option KeyRangeCheck) :=
  match manifest.itemOrder, entry.keyRange with
  | .keyOrdered, some range => do
    let order ← manifest.keyOrder
    pure (some (KeyRangeCheck.new crates.bd crates.base64 order range))
  | .keyOrdered, none =>
    .error (.invalidDataFileEntry entry.key "key_ordered manifest entry has no key_range")
  | .unordered, none => .ok none
  | .unordered, some _ =>
    .error (.invalidDataFileEntry entry.key "unordered manifest entry has a key_range")

def reader (manifest : ExtenddbManifest) (entry : DataFileEntry) (compressed : Bytes)
    (hashing : Bool) : Except BackupError DataFileReader := do
  let check ← manifest.rangeCheck crates entry
  let decoder ← entry.decoder crates compressed hashing
  pure (DataFileReader.new decoder check)

end ExtenddbManifest

/-- `serde_json` on manifests, key ranges as they are written. -/
structure ManifestText where
  print : ExtenddbManifest → Bytes
  formatVersion : Bytes → Except String Nat
  parse : Bytes → Except String ExtenddbManifest

/-- A number of a range endpoint is in normal form; an invalid one is left to the key checks. -/
def valueAsWritten (entry : String × AttributeValue) : Except BackupError Unit :=
  match entry.2 with
  | .n n =>
    match validateAndNormalizeNumber n with
    | .ok normalized =>
      if normalized ≠ n then .error (.rangeNotNormalized entry.1 n normalized) else .ok ()
    | .error _ => .ok ()
  | _ => .ok ()

def keyItemAsWritten (key : Item) : Except BackupError Unit := key.forM valueAsWritten

def DataFileEntry.rangeAsWritten (entry : DataFileEntry) : Except BackupError Unit :=
  match entry.keyRange with
  | none => .ok ()
  | some range => do
    keyItemAsWritten range.first
    keyItemAsWritten range.last

def ExtenddbManifest.fromJsonBytes (crates : BackupCrates) (text : ManifestText)
    (validateIdentity : ManifestIdentity → Except BackupError Unit) (bytes : Bytes) :
    Except BackupError ExtenddbManifest := do
  checkFormatVersion (← (text.formatVersion bytes).mapError BackupError.manifestJson)
  let manifest ← (text.parse bytes).mapError BackupError.manifestJson
  manifest.dataFiles.forM DataFileEntry.rangeAsWritten
  manifest.validate crates validateIdentity
  pure manifest

end ExtendDb
