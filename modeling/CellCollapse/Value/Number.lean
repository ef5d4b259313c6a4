import CellCollapse.Fault.Basic
import CellCollapse.Number.Numeral

set_option autoImplicit false

/-!
# Values read as numbers

Sizes and weights are given as values of any form. A size is read as an integer, a fraction losing
its fractional part; a weight is read as the nearest binary number.
-/
namespace CellCollapse.Value

def toSize : Value → Except Fault Int
  | .bool b => .ok (if b then 1 else 0)
  | .int n => .ok n
  | .float x _ =>
    match x.reading with
    | .finite negative m e => .ok (Binary64.integerPart negative m e)
    | .infinite _ => .error .infiniteSize
    | .notANumber => .error .notANumberSize
  | .text s =>
    match Numeral.readInt? s, Numeral.excess? s with
    | _, some count => .error (.tooManyDigits count)
    | some n, none => .ok n
    | none, none => .error (.integerText s)
  | v => .error (.sizeType v)

def toWeight : Value → Except Fault Binary64
  | .bool b => .ok (if b then .one else .signed false 0)
  | .int n =>
    let x := Binary64.ofInt n
    if x.isInfinite then .error .weightTooLarge else .ok x
  | .float x _ => .ok x
  | .text s =>
    match Numeral.readNumber? s with
    | some x => .ok x
    | none => .error (.numberText s)
  | v => .error (.weightType v)

end CellCollapse.Value
