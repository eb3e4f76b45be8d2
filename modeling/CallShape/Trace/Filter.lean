import CallShape.Trace.Record

/-!
Filters on the log, written as a comma-separated list of directives: a level for everything,
or `target=level` for the targets that begin with a text. Blanks are not skipped.
-/

set_option autoImplicit false

namespace CallShape.Trace

structure Directive where
  /-- Without a target the directive is for all. -/
  target : Option String
  /-- Without a level everything is off. -/
  level : Option Level
  deriving DecidableEq, Repr

namespace Directive

/-- A number in decimal digits, with or without a plus sign in front. -/
def number? (text : String) : Option Nat :=
  let digits := match text.toList with
    | '+' :: rest => rest
    | characters => characters
  if !digits.isEmpty && digits.all Char.isDigit then some (Nat.ofDigitChars 10 digits 0)
  else none

/-- A level by its name, in any case, or by its rank; `off` and the rank 0 are none. -/
def level? (text : String) : Option (Option Level) :=
  let name := text.toUpper
  if name = "OFF" ∨ number? text = some 0 then some none
  else
    (Level.all.find? fun level => level.name == name || number? text == some level.rank).map some

/-- What a directive can begin with. -/
def opens (c : Char) : Bool := c.isAlphanum || c == '-' || c == ':' || c == '_'

/-- A target without a level stands for all its records; a text that begins otherwise or asks for
a level that is none leaves no directive. -/
def parse? (text : String) : Option Directive :=
  if text.toList.head?.any opens then
    match text.splitOn "=" with
    | [word] =>
        match level? word with
        | some level => some ⟨none, level⟩
        | none => some ⟨some word, some .trace⟩
    | [target, ""] => some ⟨some target, some .trace⟩
    | [target, level] => (level? level).map (⟨some target, ·⟩)
    | _ => none
  else none

/-- How closely the directive describes its targets. -/
def weight (directive : Directive) : Nat :=
  match directive.target with
  | none => 0
  | some target => target.length + 1

def covers (directive : Directive) (record : Record) : Bool :=
  match directive.target with
  | none => true
  | some target => record.isUnder target

def admits (directive : Directive) (record : Record) : Bool :=
  match directive.level with
  | none => false
  | some level => record.level.rank ≤ level.rank

end Directive

/-- Later directives for the same target replace earlier ones. -/
abbrev Filter := List Directive

namespace Filter

/-- With no directive at all only errors pass. -/
def parse (text : String) : Filter :=
  match (text.splitOn ",").filterMap fun item =>
      if item = "" then none else Directive.parse? item with
  | [] => [⟨none, some .error⟩]
  | directives => directives

/-- The closest of two directives, the later one if they are equally close. -/
def closer (best : Option Directive) (next : Directive) : Option Directive :=
  match best with
  | none => some next
  | some directive => if directive.weight ≤ next.weight then some next else some directive

/-- The directive with the longest target that covers the record decides. -/
def admits (filter : Filter) (record : Record) : Bool :=
  match (filter.filter (·.covers record)).foldl closer none with
  | none => false
  | some directive => directive.admits record

def lines (filter : Filter) (records : List Record) : List String :=
  (records.filter filter.admits).map Record.line

end Filter

end CallShape.Trace
