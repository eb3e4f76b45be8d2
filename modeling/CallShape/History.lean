import CallShape.Process

set_option autoImplicit false

namespace CallShape

/-- A request to a process. -/
inductive Call where
  | openTable (config : Config)
  | installGlobal (config : Config)
  | globalTable
  | symbol (target : Target) (text : String)
  | forNames (target : Target) (names : List (Option String))
  | forFilledNames (target : Target) (names : List (Option String))
  | forVector (target : Target) (names : Option (List String))
  | forSlots (target : Target) (slots : List Slot)
  | unnamed (target : Target) (arity : Nat)
  | flatten (target : Target) (supplied : Signature) (spread : Spread)

inductive Reply where
  | table (id : TableId)
  | symbol (symbol : Symbol)
  | signature (signature : Signature)
  /-- A vector without names has no signature. -/
  | nothing

namespace Call

/-- The target is settled first, so that a call meant for the global table makes it even if the
call then fails. -/
def perform : Call → Action Process Fault Reply
  | .openTable config => do return .table (← Process.openTable config)
  | .installGlobal config => do return .table (← Process.installGlobal config)
  | .globalTable => do return .table (← Process.globalTable)
  | .symbol target text => do
      let id ← Process.resolve target
      return .symbol (← Process.symbol id text)
  | .forNames target names => do
      let id ← Process.resolve target
      return .signature (← Process.forNames id names)
  | .forFilledNames target names => do
      let id ← Process.resolve target
      return .signature (← Process.forFilledNames id names)
  | .forVector target names => do
      let id ← Process.resolve target
      match ← Process.forVector id names with
      | none => return .nothing
      | some signature => return .signature signature
  | .forSlots target slots => do
      let id ← Process.resolve target
      return .signature (← Process.canonical id slots)
  | .unnamed target arity => do
      let id ← Process.resolve target
      return .signature (← Process.unnamed id arity)
  | .flatten target supplied spread => do
      let id ← Process.resolve target
      return .signature (← Process.flatten id supplied spread)

end Call

/-- Some table of the process has this instance. -/
def Process.Holds (process : Process) (signature : Signature) : Prop :=
  ∃ table ∈ process.tables, signature ∈ table.signatures

/-- What a caller can hand over: symbols of the shared interner and signatures that some table
of the process gave out. -/
def Call.Admissible (process : Process) : Call → Prop
  | .forSlots _ slots => process.pool.Knows slots
  | .flatten _ supplied spread =>
      process.Holds supplied ∧ ∀ expansion, some expansion ∈ spread.groups → process.Holds expansion
  | _ => True

namespace Process

/-- One outcome for each call; each starts from the state that the one before left. -/
def outcomes : List Call → Process → List (Outcome Process Fault Reply)
  | [], _ => []
  | call :: rest, process =>
      let outcome := call.perform process
      outcome :: outcomes rest outcome.state

/-- The state after all the calls. -/
def after : List Call → Process → Process
  | [], process => process
  | call :: rest, process => after rest (call.perform process).state

/-- Everything that the calls reported, in order. -/
def noticesOf : List Call → Process → List Notice
  | [], _ => []
  | call :: rest, process =>
      let outcome := call.perform process
      outcome.notices ++ noticesOf rest outcome.state

/-- Every call is admissible in the state in which it is made. -/
def Admissible : List Call → Process → Prop
  | [], _ => True
  | call :: rest, process =>
      call.Admissible process ∧ Admissible rest (call.perform process).state

/-- The states that a new process can come to. -/
def Reachable (process : Process) : Prop :=
  ∃ calls, Admissible calls {} ∧ process = after calls {}

end Process

end CallShape
