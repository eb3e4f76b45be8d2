import CallShape.Signature

set_option autoImplicit false

namespace CallShape

structure Arguments (α : Type) where
  values : List α
  signature : Signature
  deriving Repr

namespace Arguments

variable {α β : Type}

/-- There must be as many values as slots. -/
def make (values : List α) (signature : Signature) : Except ArgumentsError (Arguments α) :=
  if values.length = signature.arity then .ok ⟨values, signature⟩
  else .error (.lengthMismatch values.length signature.arity)

def length (arguments : Arguments α) : Nat := arguments.signature.arity

def isEmpty (arguments : Arguments α) : Bool := arguments.signature.isEmpty

def valueAt (arguments : Arguments α) (index : Nat) : Except Fault α :=
  match arguments.values[index]? with
  | some value => .ok value
  | none => .error (.outOfBounds arguments.values.length index)

/-- The value that stood in the slot, and the list with the new one there. -/
def replace (arguments : Arguments α) (index : Nat) (value : α) :
    Except Fault (α × Arguments α) :=
  (arguments.valueAt index).map fun old =>
    (old, { arguments with values := arguments.values.set index value })

def reverse (arguments : Arguments α) : Arguments α :=
  { arguments with values := arguments.values.reverse }

/-- Names and values in the order of the slots. -/
def pairs (arguments : Arguments α) : List (Option String × α) :=
  arguments.signature.names.zip arguments.values

/-- The value of the first slot with this name. -/
def valueNamed (arguments : Arguments α) (name : String) : Option α :=
  (arguments.signature.indexOfName name).bind (arguments.values[·]?)

/-- The same signature with other values, made from each value and its position. -/
def mapIdx (f : Nat → α → β) (arguments : Arguments α) : Arguments β :=
  ⟨arguments.values.mapIdx f, arguments.signature⟩

def map (f : α → β) (arguments : Arguments α) : Arguments β := arguments.mapIdx fun _ => f

/-- One slot as text: `name=value`, or `arg` and the position for a slot without a name. -/
def displaySlot (position : Nat) : Option String → String → String
  | some name, value => name ++ "=" ++ value
  | none, value => "arg" ++ toString position ++ "=" ++ value

/-- A list whose values are given as text. -/
def displayText (arguments : Arguments String) : String :=
  "Args=\x7b" ++
    String.intercalate ", "
      (arguments.pairs.mapIdx fun position pair => displaySlot position pair.1 pair.2) ++
    "\x7d"

end Arguments

/-- What a list can hold: a number, a text, or a list again. -/
inductive Payload where
  | number (value : Int)
  | text (value : String)
  | nested (arguments : Arguments Payload)

namespace Payload

mutual

def display : Payload → String
  | .number value => toString value
  | .text value => value
  | .nested arguments => displayNested arguments

def displayNested : Arguments Payload → String
  | ⟨values, signature⟩ => Arguments.displayText ⟨displayAll values, signature⟩

def displayAll : List Payload → List String
  | [] => []
  | value :: rest => display value :: displayAll rest

end

end Payload

def Arguments.display (arguments : Arguments Payload) : String :=
  (arguments.map Payload.display).displayText

end CallShape
