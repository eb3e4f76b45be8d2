import CallShape.Fault
import CallShape.Slot

/-!
A signature is an instance with a serial number of its own. Whoever hands out signatures takes
care that equal slots come with equal serials, so signatures are compared by serial alone.
-/

set_option autoImplicit false

namespace CallShape

structure Signature where
  serial : Nat
  arity : Nat
  /-- How many slots carry a name. -/
  namedCount : Nat
  /-- The positions of the `...` slots, ascending. -/
  rests : List Nat
  /-- The slots, left out when all are positional. -/
  stored : Option (List Slot)
  deriving Repr

/-- Only the instance counts. -/
instance : BEq Signature := ⟨fun first second => first.serial == second.serial⟩

namespace Signature

/-- The positions, counted from `start`, of the slots named `...`. -/
def restPositions (start : Nat) : List Slot → List Nat
  | [] => []
  | slot :: rest =>
      if slot.isRest then start :: restPositions (start + 1) rest
      else restPositions (start + 1) rest

/-- A new instance with these slots. -/
def build (serial : Nat) (slots : List Slot) : Signature where
  serial := serial
  arity := slots.length
  namedCount := slots.countP Slot.isNamed
  rests := restPositions 0 slots
  stored := if slots.all (· == Slot.positional) then none else some slots

def isEmpty (signature : Signature) : Bool := signature.arity == 0

def isAllPositional (signature : Signature) : Bool := signature.stored.isNone

def slots (signature : Signature) : List Slot :=
  signature.stored.getD (List.replicate signature.arity .positional)

/-- Whether these are the slots, given that there are as many of them. -/
def hasSlots (signature : Signature) (slots : List Slot) : Bool :=
  match signature.stored with
  | none => slots.all (· == Slot.positional)
  | some own => own == slots

theorem all_positional_beq (own slots : List Slot) (same : own.length = slots.length)
    (all : own.all (· == Slot.positional)) :
    slots.all (· == Slot.positional) = (own == slots) := by
  induction own generalizing slots with
  | nil => cases slots <;> simp_all
  | cons slot rest ih =>
      cases slots with
      | nil => simp at same
      | cons other others =>
          simp only [List.all_cons, Bool.and_eq_true] at all
          simp only [List.length_cons, Nat.add_right_cancel_iff] at same
          rw [Slot.eq_positional slot all.1, List.all_cons, List.cons_beq_cons,
            ih others same all.2]
          cases other <;> rfl

/-- A new instance has the slots that it was made from, and no others. -/
theorem hasSlots_build (serial : Nat) (own slots : List Slot)
    (same : own.length = slots.length) :
    (build serial own).hasSlots slots = (own == slots) := by
  cases all : own.all (· == Slot.positional) <;>
    simp only [hasSlots, build, all, if_true, Bool.false_eq_true, if_false]
  exact all_positional_beq own slots same all

def labels (signature : Signature) : List Label := signature.slots.map Slot.label

def slotAt (signature : Signature) (index : Nat) : Except SignatureError Slot :=
  if index < signature.arity then
    .ok ((signature.stored.bind (·[index]?)).getD .positional)
  else .error (.slotOutOfRange index signature.arity)

/-- Positional and unmatched slots have no name. -/
def nameAt (signature : Signature) (index : Nat) : Except SignatureError (Option String) :=
  (signature.slotAt index).map Slot.text?

def symbolAt (signature : Signature) (index : Nat) : Except SignatureError (Option Symbol) :=
  (signature.slotAt index).map Slot.symbol?

def isUnmatchedAt (signature : Signature) (index : Nat) : Except SignatureError Bool :=
  (signature.slotAt index).map (· == Slot.unmatched)

def isRestAt (signature : Signature) (index : Nat) : Except SignatureError Bool :=
  (signature.slotAt index).map Slot.isRest

def restCount (signature : Signature) : Nat := signature.rests.length

/-- The position of the `...` slot with this number, counted from the left. -/
def nthRest? (signature : Signature) (number : Nat) : Option Nat := signature.rests[number]?

/-- The `...` slot, if there is one; with several the question has no answer. -/
def restIndex (signature : Signature) : Except SignatureError (Option Nat) :=
  match signature.rests with
  | [] => .ok none
  | [index] => .ok (some index)
  | several => .error (.ambiguousRest several.length)

/-- The first slot with this name, by text. -/
def indexOfName (signature : Signature) (name : String) : Option Nat :=
  signature.stored.bind (·.findIdx? (fun slot => slot.text? == some name))

/-- The first slot with this symbol, by handle. -/
def indexOfSymbol (signature : Signature) (symbol : Symbol) : Option Nat :=
  signature.stored.bind (·.findIdx? (· == Slot.named symbol))

def names (signature : Signature) : List (Option String) := signature.slots.map Slot.text?

/-- Slots without a name are shown as `NULL`. -/
def display (signature : Signature) : String :=
  "Signature[" ++ String.intercalate ", " (signature.names.map (·.getD "NULL")) ++ "]"

end Signature

end CallShape
