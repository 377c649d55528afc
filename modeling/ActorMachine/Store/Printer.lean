import ActorMachine.Store

set_option autoImplicit false

/-!
The printer: values as listing text.

Data print so that the reader takes them back. Printing always ends: lists are followed only to a
fixed depth and length, and what lies beyond is elided. Code, cells, arrays and processes print as
what they are.
-/

namespace ActorMachine.Store

/-- The most items of a list that are printed. -/
def maxPrintLength : Nat := 65536

/-- A character between two `quote`s. -/
def escape (quote c : Char) : List Char :=
  if c = '\\' then ['\\', '\\']
  else if c = '\n' then ['\\', 'n']
  else if c = '\t' then ['\\', 't']
  else if c = '\r' then ['\\', 'r']
  else if c = quote then ['\\', c]
  else [c]

/-- A text between two `quote`s, behind `out`. -/
def writeQuoted (out : String) (quote : Char) (text : String) : String :=
  let write (out : String) (c : Char) := (escape quote c).foldl String.push out
  (text.toList.foldl write (out.push quote)).push quote

/-- A symbol, bare or between bars, behind `out`. -/
def writeSymbol (out name : String) : String :=
  if Symbol.isBare name.toList then out ++ name else writeQuoted out '|' name

/-- The rest of a list of which at most `left` more items are printed, behind `out`. -/
def writeRest (store : Store) (item : String → Value → String) : Nat → String → Value → String
  | _, out, .nil => out.push ')'
  | 0, out, .pair _ => out ++ " ...)"
  | left + 1, out, .pair ref =>
      store.writeRest item left (item (out.push ' ') (store.carAt ref)) (store.cdrAt ref)
  | _, out, tail => (item (out ++ " . ") tail).push ')'

/-- A value in which at most `depth` lists enclose each other, behind `out`. -/
def writeValue (store : Store) : Nat → String → Value → String
  | _, out, .nil => out ++ "()"
  | _, out, .symbol name => writeSymbol out name
  | _, out, .number x => out ++ x.text
  | _, out, .string text => writeQuoted out '"' text
  | 0, out, .pair _ => out ++ "(...)"
  | depth + 1, out, .pair ref =>
      store.writeRest (store.writeValue depth) (maxPrintLength - 1)
        (store.writeValue depth (out.push '(') (store.carAt ref)) (store.cdrAt ref)
  | _, out, .template _ => out ++ "#<template>"
  | _, out, .function _ => out ++ "#<function>"
  | _, out, .cell _ => out ++ "#<cell>"
  | _, out, .array ref => out ++ "#<array:" ++ toString (store.arrayAt ref).size ++ ">"
  | _, out, .process pid => out ++ showProcess pid

/-- A value as listing text. -/
def render (store : Store) (v : Value) : String := store.writeValue maxDepth "" v

/-- A value with its kind, for diagnostics. -/
def describe (store : Store) : Value → String
  | .nil => "Nil"
  | .symbol name => "Symbol(" ++ name ++ ")"
  | .number x => "Number(" ++ x.text ++ ")"
  | .string text => "String(" ++ Text.quoteVisibly text ++ ")"
  | .pair ref => "List(" ++ store.render (.pair ref) ++ ")"
  | v => store.render v

end ActorMachine.Store
