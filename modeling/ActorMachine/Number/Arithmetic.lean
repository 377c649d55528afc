import ActorMachine.Number.Binary

set_option autoImplicit false

/-!
Arithmetic on binary numbers.

The exact result of an operation on finite numbers is a quotient of integers, and the operation
gives the number nearest to it. Infinities act as the limits that they stand for. An operand that is
not a number is the result, the first one if both are not. Where there is no result at all, such as
for zero divided by zero, it is `undefined`.
-/

namespace ActorMachine.Number

/-- The result where there is none. It is not a number, and has a minus sign. -/
def undefined : Number := ofPattern true notANumber

def negate (x : Number) : Number := ofPattern (!x.isNegative) x.pattern

/-- The exact value of a finite number in units. -/
def amount (x : Number) : Int :=
  if x.isNegative then -(units x.pattern : Int) else units x.pattern

/-- Extends an operation to operands that are not numbers. -/
def extend (f : Number → Number → Number) (a b : Number) : Number :=
  if a.isNaN then a else if b.isNaN then b else f a b

/-- Whether the result of a multiplication or division is negative. -/
def signsDiffer (a b : Number) : Bool := a.isNegative != b.isNegative

/-- The sum of finite numbers. A sum of zero is negative if both summands are. -/
def finiteSum (a b : Number) : Number :=
  let total := a.amount + b.amount
  let negative := if total = 0 then a.isNegative && b.isNegative else decide (total < 0)
  ofPattern negative (nearestUnits total.natAbs 1)

/-- The sum of numbers. Infinities of different signs have none. -/
def sum (a b : Number) : Number :=
  if a.isInfinite then
    if b.isInfinite && a.signsDiffer b then undefined else a
  else if b.isInfinite then b
  else finiteSum a b

/-- The product of numbers. Zero and infinity have none. -/
def product (a b : Number) : Number :=
  if a.isInfinite || b.isInfinite then
    if a.isZero || b.isZero then undefined else ofPattern (a.signsDiffer b) infinity
  else
    ofPattern (a.signsDiffer b)
      (nearestUnits (units a.pattern * units b.pattern) unitsPerOne)

/-- The quotient of numbers. Two zeros have none, nor do two infinities. -/
def quotient (a b : Number) : Number :=
  if a.isInfinite && b.isInfinite || a.isZero && b.isZero then undefined
  else if a.isInfinite || b.isZero then ofPattern (a.signsDiffer b) infinity
  else if b.isInfinite then ofPattern (a.signsDiffer b) 0
  else ofPattern (a.signsDiffer b) (nearest (units a.pattern) (units b.pattern))

instance : Neg Number := ⟨negate⟩

instance : Add Number := ⟨extend sum⟩

instance : Sub Number := ⟨extend fun a b => sum a (negate b)⟩

instance : Mul Number := ⟨extend product⟩

instance : Div Number := ⟨extend quotient⟩

end ActorMachine.Number
