import ActorMachine.Store
import ActorMachine.Wire

set_option autoImplicit false

/-! Values on the wire: only data have a wire form, and only to a bounded depth and length. -/

namespace ActorMachine.Store

/-- The most items of a list on the wire. -/
def maxWireLength : Nat := 1048576

/-- The wire form of a list of which at most `left` more items are taken; `seen` holds those before,
last one first. -/
def encodeSpine (store : Store) (item : Value → Except WireFault Wire) :
    Nat → List Wire → Value → Except WireFault Wire
  | _, seen, .nil => .ok (.list seen.reverse)
  | 0, _, .pair _ => .error .tooLong
  | left + 1, seen, .pair ref =>
      match item (store.carAt ref) with
      | .ok found => store.encodeSpine item left (found :: seen) (store.cdrAt ref)
      | .error fault => .error fault
  | _, seen, tail => (item tail).map fun found => .dotted (found :: seen).reverse

/-- The wire form of a value in which at most `depth` data enclose each other. -/
def encodeValue (store : Store) : Nat → Value → Except WireFault Wire
  | 0, _ => .error .tooDeep
  | _ + 1, .nil => .ok (.list [])
  | _ + 1, .symbol name => .ok (.symbol name)
  | _ + 1, .number x => if x.isFinite then .ok (.number x) else .error (.notFinite x)
  | _ + 1, .string text => .ok (.string text)
  | depth + 1, .pair ref =>
      store.encodeSpine (store.encodeValue depth) maxWireLength [] (.pair ref)
  | _ + 1, v => .error (.noWireForm v.kind.name)

/-- The wire form of a value. -/
def encode (store : Store) (v : Value) : Except WireFault Wire := store.encodeValue maxDepth v

/-- A value as JSON. -/
def toWireText (store : Store) (v : Value) (codec : Wire.Codec := .standard) :
    Except WireFault String :=
  (store.encode v).map codec.write

/-- The value that a text in relaxed JSON spells. -/
def ofWireText (store : Store) (text : String) (codec : Wire.Codec := .standard) :
    Except WireFault (Value × Store) :=
  (Wire.readDatum text codec).map store.load

end ActorMachine.Store
