import CallShape.Signature

set_option autoImplicit false

namespace CallShape

/-- Where a table sends its warnings. -/
inductive Sink where
  /-- To the log. -/
  | log
  /-- To a hook, which takes each warning and then may fail. -/
  | hook (fails : Warning → Bool)

structure Config where
  /-- All-positional signatures of a smaller arity are kept at hand. -/
  cacheLength : Nat := 32
  sink : Sink := .log

namespace Config

def withCacheLength (config : Config) (length : Nat) : Config :=
  { config with cacheLength := length }

/-- Warnings go to this hook from now on. -/
def withHook (config : Config) (fails : Warning → Bool) : Config :=
  { config with sink := .hook fails }

end Config

structure Table where
  /-- One instance for each shape, in the order in which they were added. -/
  signatures : List Signature
  /-- The all-positional signatures at hand, by arity. -/
  unnamed : List Signature
  sink : Sink

namespace Table

def blank (sink : Sink) : Table := ⟨[], [], sink⟩

def size (table : Table) : Nat := table.signatures.length

def isEmpty (table : Table) : Bool := table.signatures.isEmpty

/-- The instance for these slots. -/
def find? (table : Table) (slots : List Slot) : Option Signature :=
  let arity := slots.length
  table.signatures.find? fun signature => signature.arity == arity && signature.hasSlots slots

/-- The instance at hand for these slots, when all are positional and there are few. -/
def atHand? (table : Table) (slots : List Slot) : Option Signature :=
  if slots.all (· == Slot.positional) then table.unnamed[slots.length]? else none

/-- What came of a candidate for slots that the search had missed. -/
inductive Publication where
  | known (signature : Signature)
  | added (table : Table)

/-- Searches once more, and adds the candidate if there is still no instance. -/
def publish (table : Table) (slots : List Slot) (candidate : Signature) : Publication :=
  match table.find? slots with
  | some signature => .known signature
  | none => .added { table with signatures := table.signatures ++ [candidate] }

end Table

end CallShape
