import CallShape.Signature

set_option autoImplicit false

namespace CallShape

inductive Notice where
  /-- A text was new to an interner, which then held `total` texts. -/
  | nameAdded (text : String) (shard total : Nat)
  /-- A shape was new to a table. -/
  | signatureAdded (table : Nat) (signature : Signature)
  /-- A table without a hook gave a warning. -/
  | logged (table : Nat) (warning : Warning)
  /-- A table's hook was given a warning. -/
  | delivered (table : Nat) (warning : Warning)
  deriving Repr

end CallShape
