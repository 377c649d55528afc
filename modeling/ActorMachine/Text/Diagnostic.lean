import ActorMachine.Text.Excerpt

set_option autoImplicit false

/-! Places in a text and texts between quotes, as diagnostics show them. -/

namespace ActorMachine.Text

/-- A place in a text: lines count from one, and columns count the bytes since the line began. -/
structure Place where
  line : Nat
  column : Nat
  deriving DecidableEq, Repr

namespace Place

/-- The place at which `text` ends. -/
def behind (text : List Char) : Place where
  line := text.count '\n' + 1
  column := byteSize (text.reverse.takeWhile (· != '\n'))

def message (place : Place) : String :=
  "line " ++ toString place.line ++ " column " ++ toString place.column

end Place

/-- Whether a character has the Unicode general category Control. -/
def isControl (c : Char) : Bool := c.toNat < 0x20 || (0x7F ≤ c.toNat && c.toNat < 0xA0)

/-- A character between double quotes, with everything that cannot be seen spelled out. -/
def escapeVisibly (c : Char) : List Char :=
  if c = '"' ∨ c = '\\' then ['\\', c]
  else if c = '\n' then ['\\', 'n']
  else if c = '\r' then ['\\', 'r']
  else if c = '\t' then ['\\', 't']
  else if c = '\x00' then ['\\', '0']
  else if isControl c then ['\\', 'u', '\x7b'] ++ Nat.toDigits 16 c.toNat ++ ['\x7d']
  else [c]

/-- A text between double quotes, with everything that cannot be seen spelled out. -/
def quoteVisibly (text : String) : String :=
  String.ofList ('"' :: text.toList.flatMap escapeVisibly ++ ['"'])

end ActorMachine.Text
