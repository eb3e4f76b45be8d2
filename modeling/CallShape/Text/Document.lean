set_option autoImplicit false

namespace CallShape.Text

inductive Document where
  | word (text : String)
  | list (items : List Document)
  | tuple (name : String) (items : List Document)
  | record (name : String) (fields : List (String × Document))

namespace Document

/-- A part that may be missing. -/
def option : Option Document → Document
  | none => .word "None"
  | some part => .tuple "Some" [part]

def number (n : Nat) : Document := .word (toString n)

mutual

/-- The whole document on one line. -/
def compact : Document → String
  | .word text => text
  | .list items => "[" ++ String.intercalate ", " (compactItems items) ++ "]"
  | .tuple name items => name ++ "(" ++ String.intercalate ", " (compactItems items) ++ ")"
  | .record name fields =>
      name ++ " \x7b " ++ String.intercalate ", " (compactFields fields) ++ " \x7d"

def compactItems : List Document → List String
  | [] => []
  | item :: rest => compact item :: compactItems rest

def compactFields : List (String × Document) → List String
  | [] => []
  | (name, field) :: rest => (name ++ ": " ++ compact field) :: compactFields rest

end

/-- Four spaces a level. -/
def indent : Nat → String
  | 0 => ""
  | level + 1 => "    " ++ indent level

mutual

/-- One part a line, each a level deeper than what holds it and closed by a comma. -/
def prettyAt (level : Nat) : Document → String
  | .word text => text
  | .list [] => "[]"
  | .list items =>
      "[\n" ++ String.join (prettyItems (level + 1) items) ++ indent level ++ "]"
  | .tuple name items =>
      name ++ "(\n" ++ String.join (prettyItems (level + 1) items) ++ indent level ++ ")"
  | .record name fields =>
      name ++ " \x7b\n" ++ String.join (prettyFields (level + 1) fields) ++ indent level ++ "\x7d"

/-- The lines of the parts. -/
def prettyItems (level : Nat) : List Document → List String
  | [] => []
  | item :: rest => (indent level ++ prettyAt level item ++ ",\n") :: prettyItems level rest

def prettyFields (level : Nat) : List (String × Document) → List String
  | [] => []
  | (name, field) :: rest =>
      (indent level ++ name ++ ": " ++ prettyAt level field ++ ",\n") :: prettyFields level rest

end

def pretty (document : Document) : String := document.prettyAt 0

end Document

/-- How an inspected value is laid out. -/
inductive Layout where
  | compact
  | pretty
  deriving DecidableEq, Repr

def Document.render (document : Document) : Layout → String
  | .compact => document.compact
  | .pretty => document.pretty

end CallShape.Text
