import ExtendDb.Expression.Evaluator
import ExtendDb.Engine.QueryKeyCondition
import ExtendDb.Storage.KeyText

/-!
# Reading one page

Query and Scan read from storage in chunks and apply the filter, the projection and the page budget
to each item as it arrives, until the page is full.
-/

namespace ExtendDb

inductive Select where
  | allAttributes | allProjectedAttributes | count | specificAttributes
deriving DecidableEq

def storageErrToDynamo : StorageError → DynamoDbError
  | .internal _ => .internalServerError "Internal server error"
  | .validation msg => .validationException msg

def applyIndexProjection (item : Item) (indexInfo : IndexInfo)
    (baseKeySchema : List KeySchemaElement) : Item :=
  match indexInfo.projection.projectionType with
  | .all => item
  | .keysOnly | .include =>
    let allowed := baseKeySchema.map (·.attributeName) ++
      indexInfo.keySchema.map (·.attributeName) ++
      indexInfo.projection.nonKeyAttributes.getD []
    item.filter fun e => decide (e.1 ∈ allowed)

/-- What stays fixed across the chunks of one page.  The projection is the function that the
compiled `ProjectionExpression` applies to an item. -/
structure PostRead where
  filter : Option Expr
  projection : Option (Item → Item)
  maps : ExpressionMaps
  lekKeySchema : List KeySchemaElement
  select : Option Select
  indexProj : Option IndexInfo
  baseKeySchema : List KeySchemaElement

structure PostReadResult where
  items : Option (List Item)
  count : Int
  scannedCount : Int
  lastEvaluatedKey : Option Item
deriving DecidableEq

structure PageReadResult where
  post : PostReadResult
  evaluatedBytes : Nat
deriving DecidableEq

def pageByteBudget : Nat := 1048576

def firstChunk : Int := 128

/-- Bounds on later chunk sizes. -/
def minChunk : Int := 32

def maxChunk : Int := 1024

/-- Outcome of offering one item to the accumulator. -/
inductive Pushed where
  | evaluated
  /-- The item was not evaluated: it would take the page past its budget. -/
  | pageFull
deriving DecidableEq

structure PostReadAccumulator where
  scannedCount : Int
  filteredCount : Int
  evaluatedBytes : Nat
  resultItems : List Item
  lastProcessedKey : Option Item
deriving DecidableEq

namespace PostRead

def isCount (post : PostRead) : Bool := post.select == some .count

def project (post : PostRead) (item : Item) : Item :=
  match post.projection, post.indexProj with
  | some proj, _ => proj item
  | none, some idx => applyIndexProjection item idx post.baseKeySchema
  | none, none => item

def filterErr (e : DynamoDbError) : DynamoDbError :=
  if (stripTextPrefix "Invalid " e.message).isSome then .validationException e.message
  else .validationException ("Invalid FilterExpression: " ++ e.message)

def passes (bd : BigDecimalCrate) (post : PostRead) (item : Item) : Result Bool :=
  match post.filter with
  | none => .ok true
  | some expr => (evaluateCondition bd item post.maps expr).mapError filterErr

end PostRead

namespace PostReadAccumulator

def new : PostReadAccumulator := ⟨0, 0, 0, [], none⟩

/-- Evaluate the item unless that would exceed the budget.  The first item of a page is always
evaluated; the budget counts an item whether or not it passes the filter. -/
def push (bd : BigDecimalCrate) (budget : Nat) (post : PostRead) (acc : PostReadAccumulator)
    (item : Item) : Result (Pushed × PostReadAccumulator) :=
  let itemBytes := itemSizeBytes item
  if acc.scannedCount > 0 ∧ acc.evaluatedBytes + itemBytes > budget then
    .ok (.pageFull, acc)
  else do
    let acc := { acc with
      evaluatedBytes := acc.evaluatedBytes + itemBytes
      scannedCount := acc.scannedCount + 1
      lastProcessedKey := some (extractKey item post.lekKeySchema) }
    if ← post.passes bd item then
      pure (.evaluated, { acc with
        filteredCount := acc.filteredCount + 1
        resultItems :=
          if post.isCount then acc.resultItems else acc.resultItems ++ [post.project item] })
    else pure (.evaluated, acc)

/-- Items to request next so that the rest of the budget fills in one round trip: one more than fit
at the average size so far, and an eighth of slack. -/
def nextChunk (budget : Nat) (acc : PostReadAccumulator) : Int :=
  if acc.scannedCount = 0 then firstChunk
  else
    let avg := max (acc.evaluatedBytes / acc.scannedCount.toNat) 1
    let remaining := budget - acc.evaluatedBytes
    let want := remaining / avg + 1
    max minChunk (min ((want + want / 8 : Nat) : Int) maxChunk)

def finish (post : PostRead) (acc : PostReadAccumulator) (more : Bool) : PageReadResult where
  post := {
    items := if post.isCount then none else some acc.resultItems
    count := if post.isCount then acc.filteredCount else acc.resultItems.length
    scannedCount := acc.scannedCount
    lastEvaluatedKey := if more then acc.lastProcessedKey else none }
  evaluatedBytes := acc.evaluatedBytes

/-- `limit` items have been evaluated. -/
def limitReached (limit : Option Int) (acc : PostReadAccumulator) : Bool :=
  limit.any fun l => decide (acc.scannedCount ≥ l)

end PostReadAccumulator

inductive ChunkOutcome where
  | returned (page : PageReadResult)
  | through (acc : PostReadAccumulator)
deriving DecidableEq

def evaluateItems (bd : BigDecimalCrate) (budget : Nat) (limit : Option Int) (post : PostRead) :
    List Item → PostReadAccumulator → Result ChunkOutcome
  | [], acc => .ok (.through acc)
  | item :: rest, acc =>
    if acc.limitReached limit then .ok (.returned (acc.finish post true))
    else do
      match ← acc.push bd budget post item with
      | (.evaluated, acc) => evaluateItems bd budget limit post rest acc
      | (.pageFull, acc) => pure (.returned (acc.finish post true))

inductive AfterChunk where
  | finished (page : PageReadResult)
  | readOn (cursor : Option Item)
deriving DecidableEq

/-- End the page, or read on from the last item, addressed the way a client would address it.  A
chunk that does not move the cursor is an error, as it would be read forever. -/
def afterChunk (budget : Nat) (limit : Option Int) (post : PostRead) (cursor : Option Item)
    (items : List Item) (storageLek : Option Item) (acc : PostReadAccumulator) :
    Result AfterChunk :=
  -- `Limit` ends a page without a look at what is past it
  if acc.limitReached limit then .ok (.finished (acc.finish post true))
  -- the budget is spent to the byte
  else if budget ≤ acc.evaluatedBytes then .ok (.finished (acc.finish post storageLek.isSome))
  else if storageLek.isNone then .ok (.finished (acc.finish post false))
  else
    let next := items.getLast?.map (extractKey · post.lekKeySchema)
    if next.isNone ∨ next = cursor then
      .error (.internalServerError "storage returned a page that did not advance the read cursor")
    else .ok (.readOn next)

/-- A storage read of up to `count` items after a cursor, with the storage layer's own last key.
The storage keeps a state of its own between reads. -/
abbrev Fetch (σ : Type) : Type :=
  Option Item → Int → σ → Except StorageError ((List Item × Option Item) × σ)

section

variable {σ : Type} (bd : BigDecimalCrate) (budget : Nat) (limit : Option Int) (post : PostRead)
  (fetch : Fetch σ)

def chunkSize (acc : PostReadAccumulator) : Int :=
  match limit with
  | some l => max (min (acc.nextChunk budget) (l - acc.scannedCount)) 1
  | none => acc.nextChunk budget

def readLoop : Nat → PostReadAccumulator → Option Item → σ → Option (Result (PageReadResult × σ))
  | 0, _, _, _ => none
  | fuel + 1, acc, cursor, s =>
    match fetch cursor (chunkSize budget limit acc) s with
    | .error e => some (.error (storageErrToDynamo e))
    | .ok ((items, storageLek), s) =>
      match evaluateItems bd budget limit post items acc with
      | .error e => some (.error e)
      | .ok (.returned page) => some (.ok (page, s))
      | .ok (.through acc) =>
        match afterChunk budget limit post cursor items storageLek acc with
        | .error e => some (.error e)
        | .ok (.finished page) => some (.ok (page, s))
        | .ok (.readOn next) => readLoop fuel acc next s

def readPage (fuel : Nat) (exclusiveStartKey : Option Item) (s : σ) :
    Option (Result (PageReadResult × σ)) :=
  readLoop bd budget limit post fetch fuel .new exclusiveStartKey s

end

end ExtendDb
