import CallShape.Handle

set_option autoImplicit false

namespace CallShape

/-- The name of a slot that takes the rest of the arguments. -/
def restName : String := "..."

/-- A slot as text. -/
inductive Label where
  | named (text : String)
  | positional
  | unmatched
  deriving DecidableEq, Repr

namespace Label

/-- A missing name makes a positional slot; an empty one is a name like any other. -/
def ofName : Option String → Label
  | some text => .named text
  | none => .positional

/-- An empty name also makes a positional slot. -/
def ofFilledName : Option String → Label
  | some text => if text = "" then .positional else .named text
  | none => .positional

/-- The names of a vector are all there; where one is empty, the slot has none. -/
def ofVectorName : String → Label
  | "" => .positional
  | text => .named text

end Label

/-- A slot with its name interned. `unmatched` marks a parameter that no argument met; like
`positional` it has no name. -/
inductive Slot where
  | named (symbol : Symbol)
  | positional
  | unmatched
  deriving Repr

namespace Slot

/-- Names are compared as symbols, so by handle. -/
instance : BEq Slot where
  beq
    | .named first, .named second => first == second
    | .positional, .positional => true
    | .unmatched, .unmatched => true
    | _, _ => false

theorem eq_positional (slot : Slot) (equal : (slot == positional) = true) :
    slot = positional := by
  cases slot with
  | positional => rfl
  | named symbol => exact absurd equal Bool.false_ne_true
  | unmatched => exact absurd equal Bool.false_ne_true

def symbol? : Slot → Option Symbol
  | .named symbol => some symbol
  | .positional => none
  | .unmatched => none

def text? (slot : Slot) : Option String := slot.symbol?.map Symbol.text

def isNamed : Slot → Bool
  | .named _ => true
  | .positional => false
  | .unmatched => false

/-- Whether the slot is named exactly `...`. -/
def isRest (slot : Slot) : Bool := slot.text? == some restName

def label : Slot → Label
  | .named symbol => .named symbol.text
  | .positional => .positional
  | .unmatched => .unmatched

end Slot

end CallShape
