set_option autoImplicit false

namespace CallShape

/-- An interner keeps its texts in this many shards. -/
abbrev shardCount : Nat := 16

/-- Why a shard and a position do not make a handle. -/
inductive HandleError where
  | shardRange
  | positionRange
  deriving DecidableEq, Repr

/-- A name: the four high bits say in which shard of an interner its text is kept, the others at
which position there. -/
structure Handle where
  bits : UInt32
  deriving DecidableEq, Repr

namespace Handle

/-- The largest position that twenty-eight bits can hold. -/
def maxPosition : Nat := 0x0FFFFFFF

/-- The handle of the empty text in every interner. -/
def empty : Handle := ⟨0⟩

instance : Inhabited Handle := ⟨empty⟩

theorem bits_shiftRight_lt (bits : UInt32) : (bits >>> 28).toNat < shardCount := by
  have bound := bits.toNat_lt
  simp only [UInt32.toNat_shiftRight, UInt32.reduceToNat, Nat.reduceMod,
    Nat.shiftRight_eq_div_pow, shardCount]
  omega

def shard (handle : Handle) : Fin shardCount :=
  ⟨(handle.bits >>> 28).toNat, bits_shiftRight_lt handle.bits⟩

def position (handle : Handle) : Nat := (handle.bits &&& 0x0FFFFFFF).toNat

/-- Puts the shard above the position; `make` is the guarded form. -/
def pack (shard position : Nat) : Handle :=
  ⟨(UInt32.ofNat shard <<< 28) ||| UInt32.ofNat position⟩

/-- The shard is checked before the position. -/
def make (shard position : Nat) : Except HandleError Handle :=
  if shard < shardCount then
    if position ≤ maxPosition then .ok (pack shard position) else .error .positionRange
  else .error .shardRange

/-- Handles are ordered as words. -/
instance : Ord Handle := ⟨fun first second => compare first.bits second.bits⟩

def ble (first second : Handle) : Bool := decide (first.bits ≤ second.bits)

/-- Ascending, with repeated handles kept. -/
def sort (handles : List Handle) : List Handle := handles.mergeSort ble

end Handle

/-- A name together with its text. -/
structure Symbol where
  handle : Handle
  text : String
  deriving Repr

/-- Two symbols are the same when their handles are: the texts are not looked at. -/
instance : BEq Symbol := ⟨fun first second => first.handle == second.handle⟩

end CallShape
