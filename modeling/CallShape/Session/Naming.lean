import CallShape.Session.Command

set_option autoImplicit false

namespace CallShape.Session.Naming

/-- Interners alone; several numbers may stand for one of them. -/
structure State where
  pools : List Interner := []
  /-- For every number, the place of its interner. -/
  numbers : List Nat := []
  symbols : List Symbol := []

inductive Command where
  | create
  | share (number : Nat)
  | intern (number : Nat) (text : String)
  | symbol (number : Nat) (text : String) (manner : Manner)
  | find (number : Nat) (text : String)
  | textAt (number : Nat) (shard position : Nat)
  | textOf (number : Nat) (symbol : Nat)
  | sameSymbol (first second : Nat)
  | inspect (symbol : Nat) (layout : Text.Layout)
  | countSymbols
  | size (number : Nat)

inductive Answer where
  | created (number size : Nat)
  | handle (handle : Handle)
  | symbol (symbol : Option Symbol)
  | text (value : String)
  | flag (value : Bool)
  | count (value : Nat)
  | size (count : Nat) (isEmpty : Bool)

abbrev Step (α : Type) := Action State Failure α

def nth {α : Type} (items : State → List α) (index : Nat) : Step α := fun state =>
  match (items state)[index]? with
  | some item => ⟨.ok item, state, []⟩
  | none => ⟨.error .malformed, state, []⟩

/-- An action on the interner at this place. -/
def onPool {α : Type} (place : Nat) (manner : Manner) (action : Action Interner InternError α) :
    Step α := do
  let pool ← nth State.pools place
  let outcome := action pool
  fun state =>
    ⟨outcome.answer.mapError fun cause => Failure.ofFault manner (.intern cause),
      { state with pools := state.pools.set place outcome.state }, outcome.notices⟩

def pool (number : Nat) : Step Interner := do
  let place ← nth State.numbers number
  nth State.pools place

def addNumber (place : Nat) : Step Nat := fun state =>
  ⟨.ok state.numbers.length, { state with numbers := state.numbers ++ [place] }, []⟩

/-- A new interner, with the notices of its start. -/
def addPool : Step Nat := fun state =>
  ⟨.ok state.pools.length, { state with pools := state.pools ++ [Interner.initial] },
    Interner.start.notices⟩

def Command.perform : Command → Step Answer
  | .create => do
      let place ← addPool
      let number ← addNumber place
      let pool ← pool number
      return .created number pool.total
  | .share number => do
      let place ← nth State.numbers number
      let copy ← addNumber place
      let pool ← pool copy
      return .created copy pool.total
  | .intern number text => do
      let place ← nth State.numbers number
      let symbol ← onPool place .aborting (Interner.intern text)
      return .handle symbol.handle
  | .symbol number text manner => do
      let place ← nth State.numbers number
      let symbol ← onPool place manner (Interner.intern text)
      Action.modify fun state => { state with symbols := state.symbols ++ [symbol] }
      return .symbol (some symbol)
  | .find number text => do
      let pool ← pool number
      return .symbol (pool.find? text)
  | .textAt number shard position => do
      let pool ← pool number
      let handle ← Action.ofExcept
        ((Handle.make shard position).mapError fun cause => .aborted (.handle cause))
      let text ← Action.ofExcept ((pool.textAt handle).mapError .aborted)
      return .text text
  | .textOf number index => do
      let pool ← pool number
      let symbol ← nth State.symbols index
      let text ← Action.ofExcept ((pool.textAt symbol.handle).mapError .aborted)
      return .text text
  | .sameSymbol first second => do
      let first ← nth State.symbols first
      let second ← nth State.symbols second
      return .flag (first == second)
  | .inspect index layout => do
      let symbol ← nth State.symbols index
      return .text (symbol.document.render layout)
  | .countSymbols => do
      let symbols ← Action.read State.symbols
      return .count (distinctCount symbols)
  | .size number => do
      let pool ← pool number
      return .size pool.total pool.isEmpty

structure Report where
  answer : Except Failure Answer
  notices : List Notice

def play : List Command → State → List Report
  | [], _ => []
  | command :: rest, state =>
      let outcome := command.perform state
      ⟨outcome.answer, outcome.notices⟩ :: play rest outcome.state

structure Transcript where
  /-- What was reported before the first step. -/
  opening : List Notice
  reports : List Report

/-- A session starts with one interner. -/
def run (commands : List Command) : Transcript :=
  let opening := Command.create.perform {}
  ⟨opening.notices, play commands opening.state⟩

end CallShape.Session.Naming
