import CallShape.Capacity
import CallShape.Interner
import CallShape.Spread
import CallShape.Table

/-!
Tables are numbered in the order in which they are made. The interner that they share comes into
being with the first of them.
-/

set_option autoImplicit false

namespace CallShape

abbrev TableId := Nat

structure Process where
  names : Option Interner := none
  tables : List Table := []
  global : Option TableId := none
  /-- The serial number of the next signature. -/
  nextSerial : Nat := 0

/-- The table that a request is meant for. -/
inductive Target where
  | numbered (table : TableId)
  | global
  deriving DecidableEq, Repr

namespace Process

/-- The shared interner, as the first table will find it if there is none yet. -/
def pool (process : Process) : Interner := process.names.getD Interner.initial

def onPool {α : Type} (action : Action Interner InternError α) : Action Process Fault α :=
  action.within pool (fun process pool => { process with names := some pool }) .intern

def table (id : TableId) : Action Process Fault Table := fun process =>
  match process.tables[id]? with
  | some table => ⟨.ok table, process, []⟩
  | none => ⟨.error .unknownTable, process, []⟩

/-- Fails if there is no room for a list of this many items. -/
def reserve (count size : Nat) : Action Process Fault Unit :=
  if Capacity.admits count size then return () else Action.fail .capacity

/-- The instance for these slots, made and added to the table if it is new there. -/
def enter (id : TableId) (slots : List Slot) : Action Process Fault Signature := fun process =>
  match process.tables[id]? with
  | none => ⟨.error .unknownTable, process, []⟩
  | some table =>
      match table.find? slots with
      | some signature => ⟨.ok signature, process, []⟩
      | none =>
          let candidate := Signature.build process.nextSerial slots
          match table.publish slots candidate with
          | .known signature =>
              ⟨.ok signature, { process with nextSerial := process.nextSerial + 1 }, []⟩
          | .added table =>
              ⟨.ok candidate,
                { process with
                  tables := process.tables.set id table
                  nextSerial := process.nextSerial + 1 },
                [.signatureAdded id candidate]⟩

/-- Makes the shared interner unless it is there. -/
def startNames : Action Process Fault Unit := fun process =>
  match process.names with
  | some _ => ⟨.ok (), process, []⟩
  | none => ⟨.ok (), { process with names := some Interner.initial }, Interner.start.notices⟩

/-- Adds a table without signatures. -/
def addTable (sink : Sink) : Action Process Fault TableId := fun process =>
  ⟨.ok process.tables.length,
    { process with tables := process.tables ++ [Table.blank sink] }, []⟩

/-- Keeps these all-positional signatures at hand. -/
def keepAtHand (id : TableId) (unnamed : List Signature) : Action Process Fault Unit :=
  Action.modify fun process =>
    { process with tables := process.tables.modify id ({ · with unnamed := unnamed }) }

/-- The all-positional signature of this arity, if there is room for its slots. -/
def enterUnnamed (id : TableId) (arity : Nat) : Action Process Fault Signature := do
  reserve arity Capacity.slotBytes
  enter id (List.replicate arity .positional)

/-- The all-positional signatures of the arities below `cacheLength` are entered at once. If
there is no room for one of them, the table is given up: its number is not told, and nothing is
kept at hand in it. -/
def openTable (config : Config) : Action Process Fault TableId := do
  startNames
  reserve config.cacheLength Capacity.signatureBytes
  let id ← addTable config.sink
  let unnamed ← Action.each (enterUnnamed id) (List.range config.cacheLength)
  keepAtHand id unnamed
  return id

/-- The global table; made on first use if it was not installed. -/
def globalTable : Action Process Fault TableId := do
  match ← Action.read Process.global with
  | some id => return id
  | none =>
      let id ← openTable {}
      Action.modify ({ · with global := some id })
      return id

/-- Makes a table and installs it as the global one; with a global table in place the new one
is made all the same, and then refused. -/
def installGlobal (config : Config) : Action Process Fault TableId := do
  let id ← openTable config
  match ← Action.read Process.global with
  | some _ => Action.fail (.signature .globalInstalled)
  | none =>
      Action.modify ({ · with global := some id })
      return id

def resolve : Target → Action Process Fault TableId
  | .numbered id => return id
  | .global => globalTable

def symbol (id : TableId) (text : String) : Action Process Fault Symbol := do
  let _ ← table id
  onPool (Interner.intern text)

/-- The instance for raw slots. -/
def canonical (id : TableId) (slots : List Slot) : Action Process Fault Signature := do
  let table ← table id
  match table.atHand? slots with
  | some signature => return signature
  | none => enter id slots

/-- The instance for labels, their names interned from left to right once there is room for the
slots. -/
def request (id : TableId) (labels : List Label) : Action Process Fault Signature := do
  let _ ← table id
  reserve (Capacity.roundUp labels.length) Capacity.slotBytes
  let slots ← onPool (Interner.slots labels)
  canonical id slots

/-- Missing names make positional slots, empty names are names. -/
def forNames (id : TableId) (names : List (Option String)) : Action Process Fault Signature :=
  request id (names.map Label.ofName)

/-- Missing and empty names make positional slots. -/
def forFilledNames (id : TableId) (names : List (Option String)) :
    Action Process Fault Signature :=
  request id (names.map Label.ofFilledName)

/-- For the names of a vector; a vector without names has no signature. -/
def forVector (id : TableId) : Option (List String) → Action Process Fault (Option Signature)
  | none => do
      let _ ← table id
      return none
  | some names => do
      let signature ← request id (names.map Label.ofVectorName)
      return some signature

/-- Gives a warning to the table's sink. -/
def warn (id : TableId) (warning : Warning) : Sink → Action Process Fault Unit
  | .log => Action.report (.logged id warning)
  | .hook fails => do
      Action.report (.delivered id warning)
      if fails warning then Action.fail (.hook warning) else return ()

/-- The all-positional signature of this arity, with a warning if it is not at hand. The warning
is given even if there is no room for that many slots. -/
def unnamed (id : TableId) (arity : Nat) : Action Process Fault Signature := do
  let table ← table id
  match table.unnamed[arity]? with
  | some signature => return signature
  | none =>
      warn id (.largeUnnamed arity table.unnamed.length) table.sink
      enterUnnamed id arity

/-- The signature of a call after spreading. -/
def flatten (id : TableId) (supplied : Signature) (spread : Spread) :
    Action Process Fault Signature := do
  let slots ← Action.ofExcept (spread.expand supplied)
  canonical id slots

end Process

end CallShape
