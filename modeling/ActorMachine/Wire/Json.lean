import ActorMachine.Number.Text

set_option autoImplicit false

/-!
JSON documents and their strict spelling.

`Json.read?` accepts one document with blanks around it. Nesting is bounded, a number has to have a
finite nearest binary number, and escapes for surrogates have to come in pairs. Reading goes down
the nesting that is still allowed, and along a list no further than the whole text is long.
-/

namespace ActorMachine

/-- A JSON document. Members stay in the order in which they were written, repeated keys included.
-/
inductive Json where
  | null
  | bool (value : Bool)
  | number (x : Number)
  | string (text : String)
  | array (items : List Json)
  | object (members : List (String × Json))

namespace Json

/-- How many arrays and objects may enclose each other. -/
def maxNesting : Nat := 127

def isSpace (c : Char) : Bool := c = ' ' || c = '\t' || c = '\n' || c = '\r'

def skip (text : List Char) : List Char := text.dropWhile isSpace

/-! ### Numbers -/

/-- The digits of a whole part: zero alone, or digits that do not start with zero. -/
def readWhole? (text : List Char) : Option (List Char × List Char) :=
  match Number.spanDigits text with
  | ([], _) => none
  | ('0' :: _ :: _, _) => none
  | found => some found

/-- The digits after a point; a point without digits is refused. -/
def readFraction? (text : List Char) : Option (List Char × List Char) :=
  match text with
  | '.' :: rest =>
      match Number.spanDigits rest with
      | ([], _) => none
      | found => some found
  | _ => some ([], text)

/-- The exponent after its mark, or zero without one. -/
def readPower? (text : List Char) : Option (Int × List Char) :=
  match text with
  | 'e' :: rest | 'E' :: rest => Number.readExponent? rest
  | _ => some (0, text)

/-- The pattern of an unsigned number, which has to be finite, and the text after it. -/
def readMagnitude? (text : List Char) : Option (Nat × List Char) := do
  let (whole, text) ← readWhole? text
  let (fraction, text) ← readFraction? text
  let (power, text) ← readPower? text
  let found : Number.Decimal := ⟨Number.digitsValue (whole ++ fraction), power - fraction.length⟩
  if found.toPattern < Number.infinity then some (found.toPattern, text) else none

/-- A number and the text after it. -/
def readNumber? (text : List Char) : Option (Json × List Char) :=
  match text with
  | '-' :: rest => (readMagnitude? rest).map fun (magnitude, after) =>
      (.number (Number.ofPattern true magnitude), after)
  | _ => (readMagnitude? text).map fun (magnitude, after) =>
      (.number (Number.ofPattern false magnitude), after)

/-! ### Strings -/

/-- The character that an escape letter other than `u` stands for. -/
def unescape? (c : Char) : Option Char :=
  if c = '"' ∨ c = '\\' ∨ c = '/' then some c
  else if c = 'b' then some '\x08'
  else if c = 'f' then some '\x0c'
  else if c = 'n' then some '\n'
  else if c = 'r' then some '\r'
  else if c = 't' then some '\t'
  else none

def isLeading (unit : Nat) : Bool := 0xD800 ≤ unit && unit < 0xDC00

def isTrailing (unit : Nat) : Bool := 0xDC00 ≤ unit && unit < 0xE000

/-- The character that a leading and a trailing surrogate stand for. -/
def joinSurrogates (leading trailing : Nat) : Char :=
  Char.ofNat (0x10000 + (leading - 0xD800) * 0x400 + (trailing - 0xDC00))

/-- The rest of a string after its opening quote, and the text after it; `seen` holds the characters
before, last one first. -/
def readString? (seen : List Char) : List Char → Option (String × List Char)
  | [] => none
  | '"' :: rest => some (String.ofList seen.reverse, rest)
  | '\\' :: 'u' :: a :: b :: c :: d :: rest =>
      match Number.hexValue? [a, b, c, d] with
      | none => none
      | some unit =>
          if isLeading unit then
            match rest with
            | '\\' :: 'u' :: e :: f :: g :: h :: after =>
                match Number.hexValue? [e, f, g, h] with
                | none => none
                | some trail =>
                    if isTrailing trail then readString? (joinSurrogates unit trail :: seen) after
                    else none
            | _ => none
          else if isTrailing unit then none
          else readString? (Char.ofNat unit :: seen) rest
  | '\\' :: escape :: rest =>
      match unescape? escape with
      | some c => readString? (c :: seen) rest
      | none => none
  | c :: rest => if c = '\\' ∨ c.toNat < 0x20 then none else readString? (c :: seen) rest

/-! ### Documents -/

/-- A reader of something at the start of a text, with the text after it. -/
abbrev Reads (α : Type) := List Char → Option (α × List Char)

/-- The rest of a list of at most `fuel` items with commas between them, up to `close`; `seen` holds
the items before, last one first. -/
def readMore? {α : Type} (close : Char) (item : Reads α) : Nat → List α → Reads (List α)
  | 0, _, _ => none
  | fuel + 1, seen, text =>
      match skip text with
      | c :: rest =>
          if c = close then some (seen.reverse, rest)
          else if c = ',' then
            match item (skip rest) with
            | some (found, after) => readMore? close item fuel (found :: seen) after
            | none => none
          else none
      | [] => none

/-- A list of at most `longest` items after its opening bracket. -/
def readList? {α : Type} (longest : Nat) (close : Char) (item : Reads α) : Reads (List α) :=
    fun text =>
  match skip text with
  | c :: rest =>
      if c = close then some ([], rest)
      else
        match item (c :: rest) with
        | some (found, after) => readMore? close item longest [found] after
        | none => none
  | [] => none

/-- A member of an object: a key, a colon and a document. -/
def readMember? (value : Reads Json) : Reads (String × Json) := fun text =>
  match text with
  | '"' :: rest =>
      match readString? [] rest with
      | some (key, after) =>
          match skip after with
          | ':' :: rest => (value (skip rest)).map fun (found, after) => ((key, found), after)
          | _ => none
      | none => none
  | _ => none

/-- The document `value` for a text that starts with `word`. -/
def readWord? (word : List Char) (value : Json) : Reads Json := fun text =>
  if word.isPrefixOf text then some (value, text.drop word.length) else none

/-- A document that starts with the first character of the text, in which no list has more than
`longest` items and under which at most `nesting` arrays and objects enclose each other. -/
def readValue? (longest : Nat) : Nat → Reads Json
  | nesting, text =>
      match text with
      | [] => none
      | c :: rest =>
          if c = '"' then (readString? [] rest).map fun (found, after) => (.string found, after)
          else if c = '[' then
            match nesting with
            | 0 => none
            | nesting + 1 =>
                (readList? longest ']' (readValue? longest nesting) rest).map fun (items, after) =>
                  (.array items, after)
          else if c = '\x7b' then
            match nesting with
            | 0 => none
            | nesting + 1 =>
                (readList? longest '\x7d' (readMember? (readValue? longest nesting)) rest).map
                  fun (members, after) => (.object members, after)
          else if c = 'n' then readWord? ['n', 'u', 'l', 'l'] .null text
          else if c = 't' then readWord? ['t', 'r', 'u', 'e'] (.bool true) text
          else if c = 'f' then readWord? ['f', 'a', 'l', 's', 'e'] (.bool false) text
          else readNumber? text

/-- The document that a text spells in full. No list in it has more items than the text is long. -/
def read? (text : List Char) : Option Json :=
  match readValue? text.length maxNesting (skip text) with
  | some (found, after) => if (skip after).isEmpty then some found else none
  | none => none

end Json

end ActorMachine
