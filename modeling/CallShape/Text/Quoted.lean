import CallShape.Text.Invisible

set_option autoImplicit false

namespace CallShape.Text

/-- Lower-case hexadecimal digits of the code point, without leading zeros. -/
def hexDigits (c : Char) : List Char := Nat.toDigits 16 c.toNat

def escapeChar (c : Char) : List Char :=
  if c = '"' then ['\\', '"']
  else if c = '\\' then ['\\', '\\']
  else if c = '\n' then ['\\', 'n']
  else if c = '\r' then ['\\', 'r']
  else if c = '\t' then ['\\', 't']
  else if c = '\x00' then ['\\', '0']
  else if isInvisible c then ['\\', 'u', '\x7b'] ++ hexDigits c ++ ['\x7d']
  else [c]

def escape (cs : List Char) : List Char := cs.flatMap escapeChar

/-- The text in double quotes, each character written by `escapeChar`. -/
def quote (text : String) : String :=
  String.ofList (['"'] ++ escape text.toList ++ ['"'])

end CallShape.Text
