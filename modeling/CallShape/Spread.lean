import CallShape.Capacity
import CallShape.Signature

set_option autoImplicit false

namespace CallShape

/-- For every supplied slot of a call that forwards `...`, whether it is ordinary or what it expands
to. -/
structure Spread where
  groups : List (Option Signature)
  deriving Repr

/-- Where an argument of the flattened call comes from. -/
inductive Source where
  | direct (index : Nat)
  | spread (group index : Nat)
  deriving DecidableEq, Repr

namespace Spread

/-- Expansions are compared as instances. -/
instance : BEq Spread := ⟨fun first second => first.groups == second.groups⟩

def length (spread : Spread) : Nat := spread.groups.length

def isEmpty (spread : Spread) : Bool := spread.groups.isEmpty

/-- The expansion at this supplied slot, if the slot is spread. -/
def groupAt (spread : Spread) (index : Nat) : Option Signature := spread.groups[index]?.join

def hasSpread (spread : Spread) : Bool := spread.groups.any Option.isSome

/-- The number of slots that a group stands for. -/
def width : Option Signature → Nat
  | none => 1
  | some expansion => expansion.arity

def totalWidth : List (Option Signature) → Nat
  | [] => 0
  | group :: rest => width group + totalWidth rest

/-- The number of slots of the flattened call, if a word can hold it. -/
def flattenedLength (spread : Spread) : Except Fault Nat :=
  if totalWidth spread.groups ≤ Capacity.maxCount then .ok (totalWidth spread.groups)
  else .error .countOverflow

/-- Fails if there is no room for the flattened call, with items of this size. -/
def reserve (spread : Spread) (size : Nat) : Except Fault Unit := do
  let length ← spread.flattenedLength
  if Capacity.admits length size then .ok () else .error .capacity

/-- Whether a match made for `previous` is stale. -/
def differsFrom (spread previous : Spread) : Bool := !(spread == previous)

def sourcesFrom (start : Nat) : List (Option Signature) → List Source
  | [] => []
  | none :: rest => .direct start :: sourcesFrom (start + 1) rest
  | some expansion :: rest =>
      (List.range expansion.arity).map (.spread start ·) ++ sourcesFrom (start + 1) rest

/-- The source of every argument of the flattened call, in its order. -/
def sources (spread : Spread) : List Source := sourcesFrom 0 spread.groups

/-- The sources as a list of their own, which must have room. -/
def listSources (spread : Spread) : Except Fault (List Source) := do
  spread.reserve Capacity.sourceBytes
  .ok spread.sources

def expandFrom (supplied : Signature) (start : Nat) :
    List (Option Signature) → Except SignatureError (List Slot)
  | [] => .ok []
  | none :: rest => do
      let slot ← supplied.slotAt start
      let later ← expandFrom supplied (start + 1) rest
      .ok (slot :: later)
  | some expansion :: rest => do
      let later ← expandFrom supplied (start + 1) rest
      .ok (expansion.slots ++ later)

/-- The slots of the flattened call: supplied slots where the group is ordinary, those of the
expansion where it is spread. Lengths are compared first, then room is asked for. -/
def expand (spread : Spread) (supplied : Signature) : Except Fault (List Slot) :=
  if supplied.arity = spread.length then do
    spread.reserve Capacity.slotBytes
    (expandFrom supplied 0 spread.groups).mapError .signature
  else .error (.signature (.spreadLength supplied.arity spread.length))

end Spread

end CallShape
