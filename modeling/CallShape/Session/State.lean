import CallShape.Inspect
import CallShape.Process
import CallShape.Trace.Filter

set_option autoImplicit false

namespace CallShape.Session

/-- Why a step gave no answer. -/
inductive Failure where
  /-- The operation handed back its reason. -/
  | returned (fault : Fault)
  /-- The operation was broken off. -/
  | aborted (fault : Fault)
  /-- No value is kept under this name. -/
  | missing (name : String)
  | malformed
  deriving DecidableEq, Repr

/-- What an operation does with a fault. -/
inductive Manner where
  | returning
  | aborting
  deriving DecidableEq, Repr

/-- Want of room breaks every operation off. -/
def Failure.ofFault : Manner → Fault → Failure
  | _, .unknownTable => .malformed
  | _, .capacity => .aborted .capacity
  | _, .countOverflow => .aborted .countOverflow
  | .returning, fault => .returned fault
  | .aborting, fault => .aborted fault

/-- Values by name, the latest first. -/
abbrev Registers (α : Type) := List (String × α)

structure State where
  process : Process := {}
  /-- The tables that the session made, in order; the global table is not among them. -/
  tables : List TableId := []
  /-- Serials of signatures in the order in which answers first mentioned them. -/
  mentioned : List Nat := []
  signatures : Registers Signature := []
  spreads : Registers Spread := []
  lists : Registers (Arguments Payload) := []
  symbols : Registers Symbol := []

/-- How a step names a table. -/
inductive TableChoice where
  | numbered (number : Nat)
  | global
  deriving DecidableEq, Repr

abbrev Step (α : Type) := Action State Failure α

namespace State

def onProcess {α : Type} (manner : Manner) (action : Action Process Fault α) : Step α :=
  action.within State.process (fun state process => { state with process := process })
    (Failure.ofFault manner)

def fetch {α : Type} (registers : State → Registers α) (name : String) : Step α := fun state =>
  match (registers state).lookup name with
  | some value => ⟨.ok value, state, []⟩
  | none => ⟨.error (.missing name), state, []⟩

def signature (name : String) : Step Signature := fetch State.signatures name

def spread (name : String) : Step Spread := fetch State.spreads name

def list (name : String) : Step (Arguments Payload) := fetch State.lists name

def symbol (name : String) : Step Symbol := fetch State.symbols name

/-- Nothing is kept without a name. -/
def keepSignature (signature : Signature) : Option String → Step Unit
  | none => return ()
  | some name => Action.modify fun state =>
      { state with signatures := (name, signature) :: state.signatures }

def keepSpread (spread : Spread) : Option String → Step Unit
  | none => return ()
  | some name => Action.modify fun state =>
      { state with spreads := (name, spread) :: state.spreads }

def keepList (arguments : Arguments Payload) : Option String → Step Unit
  | none => return ()
  | some name => Action.modify fun state =>
      { state with lists := (name, arguments) :: state.lists }

def keepSymbol (symbol : Symbol) : Option String → Step Unit
  | none => return ()
  | some name => Action.modify fun state =>
      { state with symbols := (name, symbol) :: state.symbols }

/-- The number of a signature in the answers: equal instances have equal numbers. -/
def mention (signature : Signature) : Step Nat := fun state =>
  match state.mentioned.idxOf? signature.serial with
  | some number => ⟨.ok number, state, []⟩
  | none =>
      ⟨.ok state.mentioned.length,
        { state with mentioned := state.mentioned ++ [signature.serial] }, []⟩

def choose : TableChoice → Step TableId
  | .numbered number => fun state =>
      match state.tables[number]? with
      | some id => ⟨.ok id, state, []⟩
      | none => ⟨.error .malformed, state, []⟩
  | .global => onProcess .aborting Process.globalTable

/-- A table as answers name it. -/
def choiceOf (state : State) (id : TableId) : TableChoice :=
  if state.process.global = some id then .global else .numbered (state.tables.idxOf id)

end State

end CallShape.Session
