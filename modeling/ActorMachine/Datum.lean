import ActorMachine.Number.Binary
import ActorMachine.Text.Blank

set_option autoImplicit false

/-!
Data as trees, and the spelling of symbols.

A `Datum` is what listing text and the wire format can hold: nothing in it can be shared or changed.
A symbol is written bare when its name reads back as that symbol, and between bars otherwise.
-/

namespace ActorMachine

/-- A datum that can be written down. -/
inductive Datum where
  | nil
  | symbol (name : String)
  | number (x : Number)
  | string (text : String)
  | cons (head tail : Datum)
  deriving Inhabited

namespace Datum

/-- The items in order, ending in `tail`; `items` is given last item first. -/
def ofReversed (tail : Datum) (items : List Datum) : Datum :=
  items.foldl (fun rest item => .cons item rest) tail

end Datum

namespace Symbol

/-- The characters besides blanks that end a bare symbol. -/
def isDelimiter (c : Char) : Bool :=
  c = '(' || c = ')' || c = '"' || c = '|' || c = ';' || c = '\x27'

/-- The characters of bare symbols and numbers. -/
def isAtomChar (c : Char) : Bool := !Text.isBlank c && !isDelimiter c

/-- Whether an atom starts like a number: a digit, after an optional sign and an optional point. -/
def looksNumeric : List Char → Bool
  | [] => false
  | '.' :: rest => startsWithDigit rest
  | '+' :: rest | '-' :: rest =>
      match rest with
      | '.' :: rest => startsWithDigit rest
      | _ => startsWithDigit rest
  | c :: _ => c.isDigit
where
  startsWithDigit : List Char → Bool
    | [] => false
    | c :: _ => c.isDigit

/-- Whether a name reads back as the same symbol when it is written bare. -/
def isBare (name : List Char) : Bool :=
  !name.isEmpty && name != ['.'] && !looksNumeric name && name.all isAtomChar

end Symbol

end ActorMachine
