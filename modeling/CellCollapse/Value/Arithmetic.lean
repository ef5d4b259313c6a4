import CellCollapse.Value.Number

set_option autoImplicit false

/-!
# Arithmetic of values

Steps and coordinates may be given by values of any form. Numbers are added, negated, compared and
taken round a circle by what they stand for; of the other values, texts and tuples can be joined and
gone through, and everything else is refused.
-/
namespace CellCollapse.Value

/-- What a value goes through: the items of a tuple, or the characters of a text. -/
def unpack : Value → Except Fault (List Value)
  | .tuple vs => .ok vs
  | .text s => .ok (s.toList.map fun c => .text (String.singleton c))
  | v => .error (.notIterable v)

def length : Value → Except Fault Nat
  | .tuple vs => .ok vs.length
  | .text s => .ok s.length
  | v => .error (.noLength v)

def negate : Value → Except Fault Value
  | .bool b => .ok (.int (if b then -1 else 0))
  | .int n => .ok (.int (-n))
  | .float x _ => .ok (.ofBinary x.negate)
  | v => .error (.noNegation v)

/-- The sum of two numbers, or one text or tuple after the other. Whole numbers stay whole. -/
def add (v w : Value) : Except Fault Value :=
  match v.whole?, w.whole? with
  | some a, some b => .ok (.int (a + b))
  | _, _ =>
    match v, w with
    | .text s, .text t => .ok (.text (s ++ t))
    | .tuple vs, .tuple ws => .ok (.tuple (vs ++ ws))
    | .text _, _ => .error (.noConcatenation v w)
    | .tuple _, _ => .error (.noConcatenation v w)
    | _, _ =>
      if v.isNumber && w.isNumber then do
        return .ofBinary ((← v.toWeight).add (← w.toWeight))
      else .error (.operands "+=" v w)

/-- The place of a number on a circle of a given size. -/
def remainder (v : Value) (size : Nat) : Except Fault Value :=
  match v with
  | .bool b => .ok (.int ((if b then 1 else 0) % (size : Int)))
  | .int n => .ok (.int (n % (size : Int)))
  | .float x _ => .ok (.ofBinary (x.remainder size))
  | .text _ => .error .noPlaceholder
  | v => .error (.operands "%=" v (.int size))

/-- Whether a value is a number below an integer. Not-a-number never is. -/
def isBelow (v : Value) (n : Int) : Bool :=
  match v.key with
  | .number q => decide (q < (n : Rat))
  | .infinite negative => negative
  | _ => false

/-- Whether a value is a number from an integer on. Not-a-number never is. -/
def isFrom (v : Value) (n : Int) : Bool :=
  match v.key with
  | .number q => decide ((n : Rat) ≤ q)
  | .infinite negative => !negative
  | _ => false

end CellCollapse.Value
