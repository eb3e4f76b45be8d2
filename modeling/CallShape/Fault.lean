import CallShape.Handle

set_option autoImplicit false

namespace CallShape

/-- Misuse of a signature or of the table that owns it. -/
inductive SignatureError where
  | ambiguousRest (count : Nat)
  | slotOutOfRange (index length : Nat)
  | spreadLength (signature spread : Nat)
  | globalInstalled
  deriving DecidableEq, Repr

/-- Misuse of an argument list. -/
inductive ArgumentsError where
  | lengthMismatch (values signature : Nat)
  deriving DecidableEq, Repr

/-- A shard has no position left. -/
inductive InternError where
  | shardFull (shard count : Nat)
  deriving DecidableEq, Repr

/-- Advice about a request that works but is slow. -/
inductive Warning where
  | largeUnnamed (length cached : Nat)
  deriving DecidableEq, Repr

/-- Why an operation gave no answer. -/
inductive Fault where
  | signature (cause : SignatureError)
  | arguments (cause : ArgumentsError)
  | intern (cause : InternError)
  | handle (cause : HandleError)
  | outOfBounds (length index : Nat)
  /-- More room is asked for than a list can take. -/
  | capacity
  /-- A word cannot hold the sum. -/
  | countOverflow
  | hook (warning : Warning)
  | unknownTable
  deriving DecidableEq, Repr

/-- An error or a warning as a value of its own, outside any operation. -/
inductive Diagnostic where
  | signature (cause : SignatureError)
  | arguments (cause : ArgumentsError)
  | intern (cause : InternError)
  | warning (cause : Warning)
  deriving DecidableEq, Repr

def SignatureError.message : SignatureError → String
  | .ambiguousRest count =>
      "signature has " ++ toString count ++
        " var-arg slots, a single var-arg index is undefined"
  | .slotOutOfRange index length =>
      "slot " ++ toString index ++ " is out of range for a signature of length " ++
        toString length
  | .spreadLength signature spread =>
      "spread shape covers " ++ toString spread ++ " slots but the supplied signature has " ++
        toString signature
  | .globalInstalled => "the global signature table is already initialized"

def ArgumentsError.message : ArgumentsError → String
  | .lengthMismatch values signature =>
      "argument list has " ++ toString values ++ " values but its signature has " ++
        toString signature ++ " slots"

def InternError.message : InternError → String
  | .shardFull shard count =>
      "interner shard " ++ toString shard ++ " exceeded capacity: " ++ toString count ++
        " strings, max is " ++ toString Handle.maxPosition

def HandleError.message : HandleError → String
  | .shardRange => "assertion failed: shard < 16"
  | .positionRange => "assertion failed: local <= Self::MAX_LOCAL"

def Warning.message : Warning → String
  | .largeUnnamed length cached =>
      "unnamed signature of length " ++ toString length ++
        " is outside the cached range 0.." ++ toString cached

def Fault.message : Fault → String
  | .signature cause => cause.message
  | .arguments cause => cause.message
  | .intern cause => cause.message
  | .handle cause => cause.message
  | .outOfBounds length index =>
      "index out of bounds: the len is " ++ toString length ++ " but the index is " ++
        toString index
  | .capacity => "capacity overflow"
  | .countOverflow => "attempt to add with overflow"
  | .hook warning => "hook: " ++ warning.message
  | .unknownTable => "no such table"

namespace Diagnostic

def message : Diagnostic → String
  | .signature cause => cause.message
  | .arguments cause => cause.message
  | .intern cause => cause.message
  | .warning cause => cause.message

/-- Whether two diagnostics are equal; those of different families are not compared. -/
def agree? : Diagnostic → Diagnostic → Option Bool
  | .signature first, .signature second => some (first = second)
  | .arguments first, .arguments second => some (first = second)
  | .intern first, .intern second => some (first = second)
  | .warning first, .warning second => some (first = second)
  | _, _ => none

end Diagnostic

end CallShape
