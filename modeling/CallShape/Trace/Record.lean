import CallShape.Action
import CallShape.Text.Quoted

set_option autoImplicit false

namespace CallShape.Trace

/-- From the most severe down. -/
inductive Level where
  | error
  | warn
  | info
  | debug
  | trace
  deriving DecidableEq, Repr

namespace Level

/-- A filter for a level lets through the levels of no higher rank. -/
def rank : Level → Nat
  | .error => 1
  | .warn => 2
  | .info => 3
  | .debug => 4
  | .trace => 5

def name : Level → String
  | .error => "ERROR"
  | .warn => "WARN"
  | .info => "INFO"
  | .debug => "DEBUG"
  | .trace => "TRACE"

def all : List Level := [.error, .warn, .info, .debug, .trace]

end Level

inductive Value where
  /-- A text that the log puts in quotes. -/
  | quoted (text : String)
  | plain (text : String)
  | count (number : Nat)
  deriving DecidableEq, Repr

def Value.line : Value → String
  | .quoted text => Text.quote text
  | .plain text => text
  | .count number => toString number

structure Record where
  level : Level
  target : String
  message : String
  fields : List (String × Value)
  deriving DecidableEq, Repr

namespace Record

/-- A hook that takes a warning leaves no record. -/
def ofNotice? : Notice → Option Record
  | .nameAdded text shard total =>
      some ⟨.trace, "r_intern::interner", "interned name",
        [("name", .quoted text), ("shard", .count shard), ("total", .count total)]⟩
  | .signatureAdded _ signature =>
      some ⟨.trace, "r_args::table", "interned new signature",
        [("signature", .plain signature.display)]⟩
  | .logged _ warning =>
      some ⟨.warn, "r_args::perf", "slow signature path", [("warning", .plain warning.message)]⟩
  | .delivered _ _ => none

def ofNotices (notices : List Notice) : List Record := notices.filterMap ofNotice?

/-- One line of the log. -/
def line (record : Record) : String :=
  record.level.name ++ " " ++ record.target ++ ": " ++ record.message ++
    String.join (record.fields.map fun (name, value) => " " ++ name ++ "=" ++ value.line)

/-- Whether the target begins with this text. -/
def isUnder (record : Record) (target : String) : Bool :=
  target.toList.isPrefixOf record.target.toList

end Record

end CallShape.Trace
