import CallShape.Session.State

set_option autoImplicit false

namespace CallShape.Session

/-- A payload as a step gives it: a list is named by its register. -/
inductive Given where
  | number (value : Int)
  | text (value : String)
  | list (name : String)
  deriving DecidableEq, Repr

/-- What to ask of one slot. -/
inductive SlotQuestion where
  | slot (manner : Manner)
  | name
  | symbol
  | isUnmatched
  | isRest
  deriving DecidableEq, Repr

inductive Command where
  | openTable (config : Config)
  | installGlobal (config : Config)
  | startLog
  | tableSize (table : TableChoice)
  | forNames (table : TableChoice) (names : List (Option String))
  | forFilledNames (table : TableChoice) (names : List (Option String))
  | forLabels (table : TableChoice) (labels : List Label)
  | reenter (table : TableChoice) (signature : String)
  | unnamed (table : TableChoice) (arity : Nat)
  | forVector (table : TableChoice) (names : Option (List String))
  | flatten (table : TableChoice) (signature spread : String) (manner : Manner)
  | symbol (table : TableChoice) (text : String)
  | sameSymbol (first second : String)
  | symbolText (table : TableChoice) (symbol : String)
  | handle (symbol : String)
  | findName (table : TableChoice) (text : String)
  | poolSize (table : TableChoice)
  | viewSignature (signature : String)
  | slotAt (signature : String) (index : Nat) (question : SlotQuestion)
  | restIndex (signature : String) (manner : Manner)
  | rests (signature : String) (index : Nat)
  | indexOfName (signature : String) (name : String)
  | indexOfSymbol (signature : String) (symbol : String)
  | walkNames (signature : String) (count : Nat)
  | compare (first second : String)
  | countSignatures (signatures : List String)
  | inspectSignature (signature : String) (layout : Text.Layout)
  | spread (groups : List (Option String))
  | blankSpread
  | group (spread : String) (index : Nat)
  | sources (spread : String)
  | differs (first second : String)
  | countSpreads (spreads : List String)
  | inspectSpread (spread : String) (layout : Text.Layout)
  | list (signature : String) (values : List Given) (manner : Manner)
  | viewList (list : String)
  | valueAt (list : String) (index : Nat)
  | replace (list : String) (index : Nat) (value : Given)
  | set (list : String) (index : Nat) (value : Given)
  | reverse (list : String)
  | valueNamed (list : String) (name : String)
  | walkPairs (list : String) (count : Nat)
  | map (list : String)
  | parts (list : String)
  | inspectList (list : String) (layout : Text.Layout)

/-- A step, and the name under which its value is kept. -/
structure Line where
  command : Command
  keep : Option String

/-- Signatures come with the number under which answers mention them. -/
inductive Answer where
  | nothing
  | flag (value : Bool)
  | count (value : Nat)
  | index (value : Option Nat)
  | text (value : Option String)
  | slot (slot : Slot)
  | size (count : Nat) (isEmpty : Bool)
  | table (number count : Nat) (isEmpty : Bool)
  | symbol (symbol : Symbol)
  | handle (handle : Option Handle)
  | signature (number : Nat) (signature : Signature)
  | rests (count : Nat) (index : Option Nat)
  | names (taken rest : List (Option String))
  | comparison (equal sameText : Bool)
  | spread (numbers : List (Option Nat)) (spread : Spread) (flattenedLength : Nat)
  | sources (sources : List Source)
  | difference (differs equal : Bool)
  | list (number : Nat) (arguments : Arguments Payload)
  | payload (value : Option Payload)
  | replaced (old : Payload) (display : String)
  | pairs (taken rest : List (Option String × Payload))
  | parts (values : List Payload) (number : Nat) (signature : Signature)

/-- How many of the values are different. -/
def distinctCount {α : Type} [BEq α] (values : List α) : Nat := values.eraseDups.length

namespace Command

open State (onProcess choose mention)

def answerSignature (keep : Option String) (signature : Signature) : Step Answer := do
  State.keepSignature signature keep
  let number ← mention signature
  return .signature number signature

/-- A fault that no `returning` operation meets. -/
def abort {α : Type} (answer : Except Fault α) : Step α :=
  Action.ofExcept (answer.mapError .aborted)

def answerSpread (keep : Option String) (spread : Spread) : Step Answer := do
  let length ← abort spread.flattenedLength
  State.keepSpread spread keep
  let numbers ← Action.each
    (fun group => match group with
      | none => return none
      | some signature => do
          let number ← mention signature
          return some number)
    spread.groups
  return .spread numbers spread length

def answerList (keep : Option String) (arguments : Arguments Payload) : Step Answer := do
  State.keepList arguments keep
  let number ← mention arguments.signature
  return .list number arguments

def answerTableSize (id : TableId) : Step Answer := do
  let table ← onProcess .aborting (Process.table id)
  return .size table.size table.isEmpty

def payload : Given → Step Payload
  | .number value => return .number value
  | .text value => return .text value
  | .list name => do
      let arguments ← State.list name
      return .nested arguments

def ofSignature {α : Type} (manner : Manner) (answer : Except SignatureError α) : Step α :=
  Action.ofExcept (answer.mapError fun cause => Failure.ofFault manner (.signature cause))

def answerSlot (signature : Signature) (index : Nat) : SlotQuestion → Step Answer
  | .slot manner => do
      let slot ← ofSignature manner (signature.slotAt index)
      return .slot slot
  | .name => do
      let name ← ofSignature .aborting (signature.nameAt index)
      return .text name
  | .symbol => do
      let symbol ← ofSignature .aborting (signature.symbolAt index)
      return .text (symbol.map Symbol.text)
  | .isUnmatched => do
      let flag ← ofSignature .aborting (signature.isUnmatchedAt index)
      return .flag flag
  | .isRest => do
      let flag ← ofSignature .aborting (signature.isRestAt index)
      return .flag flag

/-- The slots for labels, each name interned through the table as it is met. -/
def slotFor (id : TableId) : Label → Step Slot
  | .named text => do
      let symbol ← onProcess .aborting (Process.symbol id text)
      return .named symbol
  | .positional => return .positional
  | .unmatched => return .unmatched

/-- Registers are looked up before the table is chosen, and so before a global table is made;
those of payloads come first. -/
def perform (keep : Option String) : Command → Step Answer
  | .openTable config => do
      let id ← onProcess .aborting (Process.openTable config)
      let number ← Action.read fun state => state.tables.length
      Action.modify fun state => { state with tables := state.tables ++ [id] }
      let table ← onProcess .aborting (Process.table id)
      return .table number table.size table.isEmpty
  | .installGlobal config => do
      let id ← onProcess .returning (Process.installGlobal config)
      answerTableSize id
  | .startLog => return .nothing
  | .tableSize choice => do
      let id ← choose choice
      answerTableSize id
  | .forNames choice names => do
      let id ← choose choice
      let signature ← onProcess .aborting (Process.forNames id names)
      answerSignature keep signature
  | .forFilledNames choice names => do
      let id ← choose choice
      let signature ← onProcess .aborting (Process.forFilledNames id names)
      answerSignature keep signature
  | .forLabels choice labels => do
      let id ← choose choice
      let slots ← Action.each (slotFor id) labels
      let signature ← onProcess .aborting (Process.canonical id slots)
      answerSignature keep signature
  | .reenter choice name => do
      let given ← State.signature name
      let id ← choose choice
      let signature ← onProcess .aborting (Process.canonical id given.slots)
      answerSignature keep signature
  | .unnamed choice arity => do
      let id ← choose choice
      let signature ← onProcess .aborting (Process.unnamed id arity)
      answerSignature keep signature
  | .forVector choice names => do
      let id ← choose choice
      match ← onProcess .aborting (Process.forVector id names) with
      | none => return .nothing
      | some signature => answerSignature keep signature
  | .flatten choice signatureName spreadName manner => do
      let supplied ← State.signature signatureName
      let spread ← State.spread spreadName
      let id ← choose choice
      let signature ← onProcess manner (Process.flatten id supplied spread)
      answerSignature keep signature
  | .symbol choice text => do
      let id ← choose choice
      let symbol ← onProcess .aborting (Process.symbol id text)
      State.keepSymbol symbol keep
      return .symbol symbol
  | .sameSymbol firstName secondName => do
      let first ← State.symbol firstName
      let second ← State.symbol secondName
      return .flag (first == second)
  | .symbolText choice name => do
      let symbol ← State.symbol name
      let _ ← choose choice
      let pool ← Action.read fun state => state.process.pool
      let text ← abort (pool.textAt symbol.handle)
      return .text (some text)
  | .handle name => do
      let symbol ← State.symbol name
      return .handle (some symbol.handle)
  | .findName choice text => do
      let _ ← choose choice
      let pool ← Action.read fun state => state.process.pool
      return .handle ((pool.find? text).map Symbol.handle)
  | .poolSize choice => do
      let _ ← choose choice
      let pool ← Action.read fun state => state.process.pool
      return .size pool.total pool.isEmpty
  | .viewSignature name => do
      let signature ← State.signature name
      answerSignature keep signature
  | .slotAt name index question => do
      let signature ← State.signature name
      answerSlot signature index question
  | .restIndex name manner => do
      let signature ← State.signature name
      let index ← ofSignature manner signature.restIndex
      return .index index
  | .rests name index => do
      let signature ← State.signature name
      return .rests signature.restCount (signature.nthRest? index)
  | .indexOfName name text => do
      let signature ← State.signature name
      return .index (signature.indexOfName text)
  | .indexOfSymbol name symbolName => do
      let signature ← State.signature name
      let symbol ← State.symbol symbolName
      return .index (signature.indexOfSymbol symbol)
  | .walkNames name count => do
      let signature ← State.signature name
      return .names (signature.names.take count) (signature.names.drop count)
  | .compare firstName secondName => do
      let first ← State.signature firstName
      let second ← State.signature secondName
      return .comparison (first == second) (first.display == second.display)
  | .countSignatures names => do
      let signatures ← Action.each State.signature names
      return .count (distinctCount signatures)
  | .inspectSignature name layout => do
      let signature ← State.signature name
      return .text (some (signature.document.render layout))
  | .spread names => do
      let groups ← Action.each
        (fun name => match name with
          | none => return none
          | some name => do
              let signature ← State.signature name
              return some signature)
        names
      answerSpread keep ⟨groups⟩
  | .blankSpread => answerSpread keep ⟨[]⟩
  | .group name index => do
      let spread ← State.spread name
      match spread.groupAt index with
      | none => return .nothing
      | some signature => answerSignature keep signature
  | .sources name => do
      let spread ← State.spread name
      let sources ← abort spread.listSources
      return .sources sources
  | .differs firstName secondName => do
      let first ← State.spread firstName
      let second ← State.spread secondName
      return .difference (first.differsFrom second) (first == second)
  | .countSpreads names => do
      let spreads ← Action.each State.spread names
      return .count (distinctCount spreads)
  | .inspectSpread name layout => do
      let spread ← State.spread name
      return .text (some (spread.document.render layout))
  | .list signatureName given manner => do
      let values ← Action.each payload given
      let signature ← State.signature signatureName
      let arguments ← Action.ofExcept ((Arguments.make values signature).mapError
        fun cause => Failure.ofFault manner (.arguments cause))
      answerList keep arguments
  | .viewList name => do
      let arguments ← State.list name
      answerList keep arguments
  | .valueAt name index => do
      let arguments ← State.list name
      let value ← abort (arguments.valueAt index)
      return .payload (some value)
  | .replace name index given => do
      let value ← payload given
      let arguments ← State.list name
      let (old, arguments) ← abort (arguments.replace index value)
      State.keepList arguments (some name)
      return .replaced old arguments.display
  | .set name index given => do
      let value ← payload given
      let arguments ← State.list name
      let (_, arguments) ← abort (arguments.replace index value)
      State.keepList arguments (some name)
      return .text (some arguments.display)
  | .reverse name => do
      let arguments ← State.list name
      State.keepList arguments.reverse (some name)
      return .text (some arguments.reverse.display)
  | .valueNamed name text => do
      let arguments ← State.list name
      return .payload (arguments.valueNamed text)
  | .walkPairs name count => do
      let arguments ← State.list name
      return .pairs (arguments.pairs.take count) (arguments.pairs.drop count)
  | .map name => do
      let arguments ← State.list name
      answerList keep
        (arguments.mapIdx fun position value =>
          .text (toString position ++ ":" ++ value.display))
  | .parts name => do
      let arguments ← State.list name
      State.keepSignature arguments.signature keep
      let number ← mention arguments.signature
      return .parts arguments.values number arguments.signature
  | .inspectList name layout => do
      let arguments ← State.list name
      return .text (some (arguments.document.render layout))

end Command

end CallShape.Session
