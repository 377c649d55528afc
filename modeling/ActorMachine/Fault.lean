import ActorMachine.Number.Text
import ActorMachine.Text.Diagnostic

set_option autoImplicit false

/-!
What can go wrong, and how it is worded.

A `Fault` is a cause with the data its wording needs; `Fault.message` is the only place where the
wording is decided. A fault in a running process ends that process. `Failure` adds the one way of
going wrong that is not a fault: a walk along a circular list, which never comes to an end.
-/

namespace ActorMachine

/-- The number of a process, unique within one engine. -/
abbrev ProcessId := Nat

/-- How a process is shown. -/
def showProcess (pid : ProcessId) : String := "#<process:" ++ toString pid ++ ">"

/-- How deep lists may nest in listing text, in printed text and on the wire. -/
def maxDepth : Nat := 256

/-- The kinds of failure to read listing text. -/
inductive ReadErrorKind where
  | invalidSyntax
  | incomplete
  | tooDeeplyNested
  | trailingContent
  deriving DecidableEq, Repr

/-- A failure to read listing text. -/
structure ReadError where
  kind : ReadErrorKind
  detail : String
  /-- The text around the failure, if it has a place in the text. -/
  context : Option String
  deriving DecidableEq, Repr

namespace ReadError

/-- A failure without a place. -/
def plain (kind : ReadErrorKind) (detail : String) : ReadError := ⟨kind, detail, none⟩

/-- A failure at a byte offset of the text. -/
def located (kind : ReadErrorKind) (detail : String) (text : List Char) (offset : Nat) :
    ReadError :=
  ⟨kind, detail, some (Text.excerpt text offset)⟩

def message (e : ReadError) : String :=
  match e.context with
  | none => e.detail
  | some context => e.detail ++ "\nContext: " ++ context

end ReadError

/-- Why a datum cannot be taken from the wire or put on it. -/
inductive WireFault where
  | invalidDatum
  | invalidPayload
  | payloadIsText (found : String) (place : Text.Place)
  | emptyPayload
  | emptyDotted
  | tooDeep
  | tooLong
  | notFinite (x : Number)
  | noWireForm (kind : String)

def WireFault.message : WireFault → String
  | .invalidDatum => "invalid fasl"
  | .invalidPayload => "invalid payload"
  | .payloadIsText found place =>
      "invalid payload: invalid type: string " ++ Text.quoteVisibly found ++
        ", expected a sequence at " ++ place.message
  | .emptyPayload => "empty boot payload"
  | .emptyDotted => "empty dotted list"
  | .tooDeep => "datum too deeply nested (max depth: " ++ toString maxDepth ++ ")"
  | .tooLong => "list too long or cyclic"
  | .notFinite x => "cannot encode number " ++ x.text
  | .noWireForm kind => "cannot encode " ++ kind

/-- What is wrong with a listing. -/
inductive Malformation where
  | notIndex
  | notSymbol
  | instructionNotList
  | emptyInstruction
  | opcodeNotSymbol
  | unknownInstruction
  | badJump
  | badReceiver
  | badTimeout
  | functionNotList
  | noCode
  | badCode
  deriving DecidableEq, Repr

def Malformation.message : Malformation → String
  | .notIndex => "expected a non-negative integer"
  | .notSymbol => "expected a symbol"
  | .instructionNotList => "instruction is not a list"
  | .emptyInstruction => "empty instruction"
  | .opcodeNotSymbol => "opcode is not a symbol"
  | .unknownInstruction => "unknown instruction"
  | .badJump => "bad jump"
  | .badReceiver => "bad receive entry"
  | .badTimeout => "bad receive timeout"
  | .functionNotList => "function is not a list"
  | .noCode => "function has no code"
  | .badCode => "bad code slot"

/-- Why the host turns a request down. -/
inductive Refusal where
  | netArguments
  | netMethod
  | docRequest
  | docAttribute
  | docMethod
  | docNode (node : String)
  | other (why : String)

def Refusal.message : Refusal → String
  | .netArguments => "net: wrong number of arguments"
  | .netMethod => "net: unknown method"
  | .docRequest => "doc: bad request"
  | .docAttribute => "doc: no such resource"
  | .docMethod => "doc: unknown method"
  | .docNode node => "doc: no such resource " ++ node
  | .other why => why

/-- The faults of the machine, the natives, the reader and the wire format. -/
inductive Fault where
  | unreadable (error : ReadError)
  | wire (fault : WireFault)
  | wrongKind (who expected : String)
  | wrongCount (expected got : Nat)
  | tooFew (expected got : Nat)
  | unbound (name : String)
  | unknownNative (name : String)
  | outOfBounds (who : String)
  | notCallable (shown : String)
  /-- A listing that is not code, with the part of it that is wrong as it prints. -/
  | malformed (what : Malformation) (shown : String)
  | offTheEnd (pc : Nat)
  /-- Raised by guest code. -/
  | thrown (text : String)
  | noSuchProcess (pid : ProcessId)
  | deadPeer
  | stackUnderflow
  | notWaiting
  | refused (why : Refusal)

/-- The wording of a fault. -/
def Fault.message : Fault → String
  | .unreadable error => "ParseError: " ++ error.message
  | .wire fault => "fasl: " ++ fault.message
  | .wrongKind who expected => "type error: " ++ who ++ ": expected " ++ expected
  | .wrongCount expected got =>
      "wrong number of arguments: expected " ++ toString expected ++ ", got " ++ toString got
  | .tooFew expected got =>
      "too few arguments: expected at least " ++ toString expected ++ ", got " ++ toString got
  | .unbound name => "undefined global: " ++ name
  | .unknownNative name => "no such primitive: " ++ name
  | .outOfBounds who => who ++ ": index out of bounds"
  | .notCallable shown => "not a function: " ++ shown
  | .malformed what shown => "malformed code: " ++ what.message ++ ": " ++ shown
  | .offTheEnd pc => "malformed code: pc " ++ toString pc ++ " out of range"
  | .thrown text => text
  | .noSuchProcess pid => "no such process: " ++ showProcess pid
  | .deadPeer => "link to a halted process"
  | .stackUnderflow => "stack underflow"
  | .notWaiting => "machine is not waiting for a message"
  | .refused why => why.message

/-- The text of the reason with which a faulting process dies. -/
def Fault.reasonText (fault : Fault) : String := "exception: " ++ fault.message

/-- Why an operation has no result: it faults, or it walks a circular list and never ends. -/
inductive Failure where
  | fault (cause : Fault)
  | endless

/-- The result of an operation that can fail. -/
abbrev Outcome := Except Failure

/-- Fails with a fault. -/
@[inline] def faulting {α : Type} (cause : Fault) : Outcome α := .error (.fault cause)

end ActorMachine
