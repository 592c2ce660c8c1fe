import Mathlib.Init

/-!
# Errors

The service errors raised by the modelled code.  Every variant carries the text sent to the client.
-/

namespace ExtendDb

/-- Why a member of a transaction was refused, as far as its code and text. -/
structure CancellationReason where
  code : String
  message : Option String
deriving DecidableEq

namespace CancellationReason

/-- The member is not at fault. -/
def none : CancellationReason := ⟨"None", .none⟩

def conditionCheckFailed : CancellationReason :=
  ⟨"ConditionalCheckFailed", some "The conditional request failed"⟩

def validationError (message : String) : CancellationReason := ⟨"ValidationError", some message⟩

end CancellationReason

inductive DynamoDbError where
  | validationException (message : String)
  | resourceNotFoundException (message : String)
  | internalServerError (message : String)
  | conditionalCheckFailedException (message : String)
  | transactionCanceledException (message : String) (reasons : List CancellationReason)
deriving DecidableEq

def DynamoDbError.message : DynamoDbError → String
  | .validationException message | .resourceNotFoundException message => message
  | .internalServerError message | .conditionalCheckFailedException message => message
  | .transactionCanceledException message _ => message

def transactionCanceledErr (reasons : List CancellationReason) : DynamoDbError :=
  .transactionCanceledException
    ("Transaction cancelled, please refer cancellation reasons for specific reasons [" ++
      ", ".intercalate (reasons.map (·.code)) ++ "]") reasons

/-- The result of fallible engine code. -/
abbrev Result (α : Type) := Except DynamoDbError α

end ExtendDb
