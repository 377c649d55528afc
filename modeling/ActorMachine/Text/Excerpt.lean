set_option autoImplicit false

/-! The piece of a text that is shown beside an error in it. -/

namespace ActorMachine.Text

/-- How far before the error an excerpt starts. -/
def excerptLead : Nat := 20

/-- The most characters in an excerpt. -/
def excerptLength : Nat := 100

/-- The size of a text in bytes of UTF-8. -/
def byteSize (text : List Char) : Nat := text.foldl (fun size c => size + c.utf8Size) 0

/-- The characters of an excerpt. The offset counts bytes and the characters are counted as
characters, so the piece lies further on in a text with long characters. -/
def snippet (text : List Char) (offset : Nat) : List Char :=
  (text.drop (offset - excerptLead)).take excerptLength

/-- The mark for left-out text. -/
def elision : List Char := ['[', '.', '.', '.', ']']

/-- A snippet between the marks for what is left out before and after it. -/
def marked (text : List Char) (offset : Nat) : List Char :=
  let start := offset - excerptLead
  let piece := snippet text offset
  (if 0 < start then elision else []) ++ piece ++
    (if start + byteSize piece < byteSize text then elision else [])

/-- Keeps a text on one line: line feeds are spelled out and carriage returns dropped. -/
def oneLine (text : List Char) : List Char :=
  text.flatMap fun c => if c = '\n' then ['\\', 'n'] else if c = '\r' then [] else [c]

/-- The excerpt of `text` around the byte `offset`, on one line. -/
def excerpt (text : List Char) (offset : Nat) : String :=
  String.ofList (oneLine (marked text offset))

end ActorMachine.Text
