set_option autoImplicit false

namespace CallShape.Capacity

/-- The most bytes that one list may take. -/
def maxBytes : Nat := 0x7FFFFFFFFFFFFFFF

/-- The largest number that a word holds. -/
def maxCount : Nat := 0xFFFFFFFFFFFFFFFF

/-- A slot is a mark, a handle and a reference to a text with its length. -/
def slotBytes : Nat := 32

/-- A signature is held by reference. -/
def signatureBytes : Nat := 8

/-- A source is a mark and two indexes. -/
def sourceBytes : Nat := 24

/-- Whether there is room for this many items of one size. -/
def admits (count size : Nat) : Bool := count * size ≤ maxBytes

/-- A list that is collected item by item is given room for a power of two of them at once. -/
def roundUp (count : Nat) : Nat := if count ≤ 1 then 1 else 1 <<< ((count - 1).log2 + 1)

end CallShape.Capacity
