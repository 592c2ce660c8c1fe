import ExtendDb.BackupFormat.KeyRange
import ExtendDb.Types.WireFormat

/-!
# Data files of a backup

A data file is a gzip stream of lines, one item each.  The encoder counts the items and the bytes of
the lines and digests the compressed bytes; the decoder reads line by line and holds the stream to
what the manifest recorded.
-/

namespace ExtendDb

open Fallible

/-! ## Crates -/

inductive LineFault where
  | utf8 (text : String)
  | json (text : String)
  | notItemLine (value : JsonValue)
  | repeatedAttribute (name : String)
  | value (text : String)

structure JsonText where
  print : JsonValue → Bytes
  parse : Bytes → Except LineFault JsonValue

/-- `flate2`: what decompression yields before the source ends, and the fault it ends with. -/
structure GzipCrate where
  compress : Bytes → Bytes
  inflate : Bytes → Bytes × Option String
  /-- Over a source that fails once it has given one byte more than the limit. -/
  inflateUpTo : Nat → Bytes → Bytes × Option String

structure BackupCrates where
  bd : BigDecimalCrate
  base64 : Base64Engine
  texts : CrateTexts
  json : JsonText
  gzip : GzipCrate
  sha256 : Bytes → Bytes
  md5 : Bytes → Bytes

/-- What results may assume of the crates. -/
structure BackupCrates.Documented (crates : BackupCrates) : Prop where
  bd : crates.bd.Documented
  base64 : crates.base64.Documented
  inflate_compress : ∀ b, crates.gzip.inflate (crates.gzip.compress b) = (b, none)
  /-- A gzip stream starts with a header. -/
  compress_ne_nil : ∀ b, crates.gzip.compress b ≠ []
  sha256_length : ∀ b, (crates.sha256 b).length = 32
  md5_length : ∀ b, (crates.md5 b).length = 16
  md5_text_size : ∀ b, (crates.base64.encode (crates.md5 b)).utf8ByteSize = 24

/-! ## Errors -/

inductive DecodeFault where
  | source (text : String)
  | line (n : Nat) (text : String)
  | failedEarlier (reason : String)
  | readerFailedEarlier (reason : String)

inductive BackupError where
  | key (e : KeyRangeError)
  | encode (text : String)
  | decode (fault : DecodeFault)
  | json (line : Nat) (fault : LineFault)
  | lineTooLong (cap : Nat)
  | compressedSizeMismatch (expected actual : Nat)
  | checksumMismatch (subject expected computed : String)
  | itemCountMismatch (expected actual : Nat)
  | byteCountMismatch (expected actual : Nat)
  | invalidDataFileKey (key reason : String)
  | invalidDataFileEntry (key reason : String)
  | invalidManifest (reason : String)
  | unsupportedFormatVersion (found supported : Nat)
  | manifestJson (text : String)
  | rangeNotNormalized (name value normalized : String)

/-! ## Lines -/

def maxLineBytes : Nat := 32 * 1024 * 1024

def newline : UInt8 := 10

section

variable (crates : BackupCrates)

def encodeItemLine (item : Item) : Bytes :=
  crates.json.print (.object [("Item", .object (serializeEntries crates.base64 item))]) ++ [newline]

/-- The next member of an item; a name that is already there is refused. -/
def readAttribute (item : Item) (entry : String × JsonValue) : Except LineFault Item :=
  if (OrdMap.get? item entry.1).isSome then .error (.repeatedAttribute entry.1)
  else do
    let value ← (deserialize crates.base64 crates.texts entry.2).mapError LineFault.value
    pure (OrdMap.insert item entry.1 value)

def itemWithoutDuplicates (value : JsonValue) : Except LineFault Item :=
  match value with
  | .object entries => entries.foldlM (readAttribute crates) []
  | other => .error (.value (crates.texts.invalidType other))

def parseItemLine (text : Bytes) : Except LineFault Item := do
  match ← crates.json.parse text with
  | .object [("Item", value)] => itemWithoutDuplicates crates value
  | other => throw (.notItemLine other)

end

def stripTrailingNewline (line : Bytes) : Bytes :=
  if line.getLast? = some newline then line.dropLast else line

/-! ## Digests -/

def hexDigit (n : Nat) : Char :=
  if n < 10 then Char.ofNat (48 + n) else Char.ofNat (87 + n)

def hexEncode (bytes : Bytes) : String :=
  String.ofList (bytes.flatMap (fun b => [hexDigit (b.toNat / 16), hexDigit (b.toNat % 16)]))

structure CompressedDigest where
  sha256Hex : String
  md5Base64 : String
  bytes : Nat

def CompressedDigest.of (crates : BackupCrates) (compressed : Bytes) : CompressedDigest where
  sha256Hex := hexEncode (crates.sha256 compressed)
  md5Base64 := crates.base64.encode (crates.md5 compressed)
  bytes := compressed.length

/-- What a decoder verifies. -/
structure DataFileExpectations where
  sha256Hex : Option String
  md5Base64 : Option String
  compressedBytes : Option Nat
  itemCount : Option Nat
  uncompressedBytes : Option Nat

def verifyExpected {α : Type} [DecidableEq α] (expected : Option α) (actual : α)
    (mismatch : α → BackupError) : Except BackupError Unit :=
  match expected with
  | some e => if e ≠ actual then .error (mismatch e) else .ok ()
  | none => .ok ()

namespace DataFileExpectations

def verifyCompressedSize (expectations : DataFileExpectations) (bytes : Nat) :
    Except BackupError Unit :=
  verifyExpected expectations.compressedBytes bytes (.compressedSizeMismatch · bytes)

def verifyDigest (expectations : DataFileExpectations) (digest : CompressedDigest) :
    Except BackupError Unit := do
  expectations.verifyCompressedSize digest.bytes
  verifyExpected expectations.sha256Hex digest.sha256Hex
    (.checksumMismatch "data file sha256" · digest.sha256Hex)
  verifyExpected expectations.md5Base64 digest.md5Base64
    (.checksumMismatch "data file md5" · digest.md5Base64)

end DataFileExpectations

/-! ## The encoder -/

structure DataFileChecksums where
  itemCount : Nat
  sha256Hex : String
  md5Base64 : String
  compressedBytes : Nat
  uncompressedBytes : Nat

structure DataFileEncoder where
  written : Bytes
  itemCount : Nat
  uncompressedBytes : Nat

namespace DataFileEncoder

def new : DataFileEncoder := ⟨[], 0, 0⟩

def writeItem (crates : BackupCrates) (encoder : DataFileEncoder) (item : Item) :
    Except BackupError DataFileEncoder :=
  let line := encodeItemLine crates item
  if line.length > maxLineBytes then .error (.lineTooLong maxLineBytes)
  else .ok ⟨encoder.written ++ line, encoder.itemCount + 1, encoder.uncompressedBytes + line.length⟩

def finish (crates : BackupCrates) (encoder : DataFileEncoder) : Bytes × DataFileChecksums :=
  let compressed := crates.gzip.compress encoder.written
  let digest := CompressedDigest.of crates compressed
  (compressed, ⟨encoder.itemCount, digest.sha256Hex, digest.md5Base64, digest.bytes,
    encoder.uncompressedBytes⟩)

end DataFileEncoder

/-! ## The decoder -/

inductive SourceFault where
  | decode (text : String)
  | overrun (limit : Nat)

/-- The uncompressed bytes still to be read, and what the stream ends with. -/
structure Inflated where
  bytes : Bytes
  fault : Option SourceFault

def GzipCrate.openSource (gzip : GzipCrate) (limit : Option Nat) (compressed : Bytes) : Inflated :=
  match limit with
  | some l =>
    if l < compressed.length then
      ⟨(gzip.inflateUpTo l compressed).1, some (match (gzip.inflateUpTo l compressed).2 with
        | some text => .decode text
        | none => .overrun l)⟩
    else ⟨(gzip.inflate compressed).1, (gzip.inflate compressed).2.map .decode⟩
  | none => ⟨(gzip.inflate compressed).1, (gzip.inflate compressed).2.map .decode⟩

/-- Through the next newline, or everything. -/
def splitLine : Bytes → Bytes × Bytes
  | [] => ([], [])
  | b :: bs =>
    if b = newline then ([b], bs)
    else ((b :: (splitLine bs).1), (splitLine bs).2)

def Inflated.readCappedLine (source : Inflated) : Except BackupError (Bytes × Inflated) :=
  let line := (splitLine source.bytes).1
  let rest := (splitLine source.bytes).2
  if line.length > maxLineBytes then .error (.lineTooLong maxLineBytes)
  else if line.getLast? = some newline then .ok (line, ⟨rest, source.fault⟩)
  else match source.fault with
    | some (.decode text) => .error (.decode (.source text))
    | some (.overrun limit) => .error (.compressedSizeMismatch limit (limit + 1))
    | none => .ok (line, ⟨rest, none⟩)

structure DataFileDecoder where
  source : Inflated
  /-- The compressed bytes, all read once the stream has ended without a fault. -/
  compressed : Bytes
  hashing : Bool
  expectations : DataFileExpectations
  itemsDecoded : Nat
  bytesDecoded : Nat
  finished : Bool
  failed : Option String

namespace DataFileDecoder

variable (crates : BackupCrates)

def openFile (compressed : Bytes) (expectations : DataFileExpectations) (hashing : Bool) :
    DataFileDecoder where
  source := crates.gzip.openSource expectations.compressedBytes compressed
  compressed := compressed
  hashing := hashing
  expectations := expectations
  itemsDecoded := 0
  bytesDecoded := 0
  finished := false
  failed := none

def finishChecks (decoder : DataFileDecoder) : Except BackupError Unit := do
  if decoder.hashing then
    decoder.expectations.verifyDigest (CompressedDigest.of crates decoder.compressed)
  else decoder.expectations.verifyCompressedSize decoder.compressed.length
  verifyExpected decoder.expectations.itemCount decoder.itemsDecoded
    (.itemCountMismatch · decoder.itemsDecoded)
  verifyExpected decoder.expectations.uncompressedBytes decoder.bytesDecoded
    (.byteCountMismatch · decoder.bytesDecoded)

def checkRunningSize (expected : Option Nat) (bytesDecoded : Nat) : Except BackupError Unit :=
  match expected with
  | some e => if bytesDecoded > e then .error (.byteCountMismatch e bytesDecoded) else .ok ()
  | none => .ok ()

def lineError (n : Nat) : LineFault → BackupError
  | .utf8 text => .decode (.line n text)
  | fault => .json n fault

def nextItemInner (decoder : DataFileDecoder) :
    Except BackupError (Option Item × DataFileDecoder) := do
  let (line, source) ← decoder.source.readCappedLine
  if line.isEmpty then
    decoder.finishChecks crates
    pure (none, { decoder with finished := true })
  else
    let bytesDecoded := decoder.bytesDecoded + line.length
    checkRunningSize decoder.expectations.uncompressedBytes bytesDecoded
    let item ← (parseItemLine crates (stripTrailingNewline line)).mapError
      (lineError (decoder.itemsDecoded + 1))
    pure (some item,
      { decoder with source, bytesDecoded, itemsDecoded := decoder.itemsDecoded + 1 })

def failReason : BackupError → String
  | .checksumMismatch .. => "checksum mismatch"
  | .compressedSizeMismatch .. => "compressed size mismatch"
  | .itemCountMismatch .. => "item count mismatch"
  | .byteCountMismatch .. => "byte count mismatch"
  | .lineTooLong .. => "line too long"
  | .json .. => "unparseable line"
  | _ => "decode error"

def nextItem (decoder : DataFileDecoder) : Except BackupError (Option Item) × DataFileDecoder :=
  match decoder.failed with
  | some reason => (.error (.decode (.failedEarlier reason)), decoder)
  | none =>
    if decoder.finished then (.ok none, decoder)
    else match decoder.nextItemInner crates with
      | .ok (result, next) => (.ok result, next)
      | .error e => (.error e, { decoder with finished := true, failed := some (failReason e) })

end DataFileDecoder

/-! ## The reader -/

structure DataFileReader where
  decoder : DataFileDecoder
  check : Option KeyRangeCheck
  ended : Bool
  checkFailed : Option String

namespace DataFileReader

variable (crates : BackupCrates)

def new (decoder : DataFileDecoder) (check : Option KeyRangeCheck) : DataFileReader :=
  ⟨decoder, check, false, none⟩

def checkFailReason : KeyRangeError → String
  | .violation _ => "key order violation"
  | _ => "invalid key"

def runCheck (check : Option KeyRangeCheck) (item : Option Item) :
    Except KeyRangeError (Option KeyRangeCheck) :=
  match check, item with
  | none, _ => .ok none
  | some check, some item => some <$> check.check crates.bd crates.base64 item
  | some check, none => do
    check.finish crates.bd
    pure (some check)

def nextItem (reader : DataFileReader) : Except BackupError (Option Item) × DataFileReader :=
  match reader.checkFailed with
  | some reason => (.error (.decode (.readerFailedEarlier reason)), reader)
  | none =>
    if reader.ended then (.ok none, reader)
    else match reader.decoder.nextItem crates with
      | (.error e, decoder) => (.error e, { reader with decoder })
      | (.ok item, decoder) =>
        match runCheck crates reader.check item with
        | .ok check => (.ok item, { reader with decoder, check, ended := item.isNone })
        | .error e => (.error (.key e), { reader with
            decoder
            ended := item.isNone
            checkFailed := some (checkFailReason e) })

inductive Streams : DataFileReader → List Item → Prop where
  | done {reader next} (h : reader.nextItem crates = (.ok none, next)) : Streams reader []
  | item {reader next item items} (h : reader.nextItem crates = (.ok (some item), next))
      (hrest : Streams next items) : Streams reader (item :: items)

end DataFileReader

end ExtendDb
