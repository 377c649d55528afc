import ActorMachine.Datum
import ActorMachine.Fault
import ActorMachine.Wire.Json
import ActorMachine.Wire.Relaxed

set_option autoImplicit false

/-!
The wire format.

Numbers and symbols travel as JSON numbers and strings, proper lists as arrays, strings as
`{"s": text}` and lists that end in something else than nil as `{"d": [item, ..., tail]}`. A payload
is an array of such data.
-/

namespace ActorMachine

/-- A datum on the wire. -/
inductive Wire where
  | number (x : Number)
  | symbol (name : String)
  | list (items : List Wire)
  | string (text : String)
  | dotted (items : List Wire)
  deriving Inhabited

namespace Wire

/-! ### From JSON -/

mutual

/-- The wire datum that a document has the shape of. -/
def ofJson? : Json → Option Wire
  | .number x => some (.number x)
  | .string name => some (.symbol name)
  | .array items => (ofItems? [] items).map .list
  | .object members => ofMembers? members
  | .null | .bool _ => none

/-- The wire data of documents, behind those in `seen`, which are last one first. -/
def ofItems? (seen : List Wire) : List Json → Option (List Wire)
  | [] => some seen.reverse
  | item :: rest =>
      match ofJson? item with
      | some found => ofItems? (found :: seen) rest
      | none => none

/-- An object stands for a datum when it has one member, a string `s` or an array `d`. -/
def ofMembers? : List (String × Json) → Option Wire
  | [member] => ofMember? member
  | _ => none

def ofMember? : String × Json → Option Wire
  | (key, .string text) => if key = "s" then some (.string text) else none
  | (key, .array items) => if key = "d" then (ofItems? [] items).map .dotted else none
  | _ => none

end

/-! ### To data -/

mutual

/-- The datum of a wire datum, `depth` lists deep. -/
def toDatum (depth : Nat) : Wire → Except WireFault Datum
  | .number x => if maxDepth ≤ depth then .error .tooDeep else .ok (.number x)
  | .symbol name => if maxDepth ≤ depth then .error .tooDeep else .ok (.symbol name)
  | .string text => if maxDepth ≤ depth then .error .tooDeep else .ok (.string text)
  | .list items =>
      if maxDepth ≤ depth then .error .tooDeep
      else (toData (depth + 1) [] items).map (Datum.ofReversed .nil)
  | .dotted items =>
      if maxDepth ≤ depth then .error .tooDeep
      else
        match toData (depth + 1) [] items with
        | .error fault => .error fault
        | .ok [] => .error .emptyDotted
        | .ok (tail :: rest) => .ok (Datum.ofReversed tail rest)

/-- The data of wire data behind those in `seen`, all of them last one first. -/
def toData (depth : Nat) (seen : List Datum) : List Wire → Except WireFault (List Datum)
  | [] => .ok seen
  | item :: rest =>
      match toDatum depth item with
      | .error fault => .error fault
      | .ok found => toData depth (found :: seen) rest

end

/-- The datum of a wire datum. -/
def decode (wire : Wire) : Except WireFault Datum := wire.toDatum 0

/-- The wire data of a payload. -/
def ofPayload? : Json → Option (List Wire)
  | .array items => ofItems? [] items
  | _ => none

/-- The string that a text begins with, and the place at which it ends. -/
def leadingString? (text : List Char) : Option (String × Text.Place) :=
  match Json.skip text with
  | '"' :: rest => (Json.readString? [] rest).map fun (found, after) =>
      (found, .behind (text.take (text.length - after.length)))
  | _ => none

/-- The data that a payload in relaxed JSON holds. A string in its place is shown in the fault, and
what follows it is not looked at. -/
def readPayload (text : String) : Except WireFault (List Datum) :=
  let quoted := Relaxed.quoteKeys text.toList
  match (Json.read? quoted).bind ofPayload? with
  | some items => items.mapM decode
  | none =>
      match leadingString? quoted with
      | some (found, place) => .error (.payloadIsText found place)
      | none => .error .invalidPayload

/-! ### To text -/

/-- The hexadecimal digit of a number below sixteen. -/
def hexDigit (n : Nat) : Char := Nat.digitChar n

/-- A character as it stands in a JSON string. -/
def escape (c : Char) : List Char :=
  if c = '"' then ['\\', '"']
  else if c = '\\' then ['\\', '\\']
  else if c = '\x08' then ['\\', 'b']
  else if c = '\x0c' then ['\\', 'f']
  else if c = '\n' then ['\\', 'n']
  else if c = '\r' then ['\\', 'r']
  else if c = '\t' then ['\\', 't']
  else if c.toNat < 0x20 then
    ['\\', 'u', '0', '0', hexDigit (c.toNat / 16), hexDigit (c.toNat % 16)]
  else [c]

/-- A text as a JSON string, behind `out`. -/
def writeString (out : String) (text : String) : String :=
  (text.toList.foldl (fun out c => (escape c).foldl String.push out) (out.push '"')).push '"'

mutual

/-- A wire datum as JSON without blanks, behind `out`. -/
def writeTo (out : String) : Wire → String
  | .number x => out ++ x.wireText
  | .symbol name => writeString out name
  | .list items => (writeItems (out.push '[') items).push ']'
  | .string text => (writeString (out ++ "\x7b\"s\":") text).push '\x7d'
  | .dotted items => (writeItems (out ++ "\x7b\"d\":[") items) ++ "]\x7d"

/-- Items with commas between them, behind `out`. -/
def writeItems (out : String) : List Wire → String
  | [] => out
  | item :: rest => writeMore (writeTo out item) rest

/-- Items with a comma before each, behind `out`. -/
def writeMore (out : String) : List Wire → String
  | [] => out
  | item :: rest => writeMore (writeTo (out.push ',') item) rest

end

/-- A wire datum as JSON without blanks. -/
def write (wire : Wire) : String := wire.writeTo ""

/-! ### Codecs -/

/-- What writes wire data as JSON and reads them. -/
structure Codec where
  write : Wire → String
  read? : List Char → Option Wire

/-- The writer and the reader of this library. -/
def Codec.standard : Codec where
  write := Wire.write
  read? text := (Json.read? text).bind ofJson?

/-- The datum that a text in relaxed JSON spells. -/
def readDatum (text : String) (codec : Codec := .standard) : Except WireFault Datum :=
  match codec.read? (Relaxed.quoteKeys text.toList) with
  | some wire => wire.decode
  | none => .error .invalidDatum

end Wire

end ActorMachine
