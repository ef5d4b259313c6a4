set_option autoImplicit false

/-!
# Binary64 numbers

A number of the 64-bit binary format is kept as its bit pattern. `Binary64.reading` gives the
number that a pattern stands for, and `Binary64.ofRatio` the pattern nearest to a ratio of
naturals, a half going to the even neighbour. Both are exact arithmetic on naturals: only
`Binary64.toFloat` leaves it, for sums that are to be rounded step by step.
-/
namespace CellCollapse

/-- A 64-bit binary number, given by its bits. -/
structure Binary64 where
  bits : UInt64
deriving DecidableEq

namespace Binary64

/-- The number that a bit pattern stands for: `±mantissa · 2^exponent` when it is finite. -/
inductive Reading where
  | finite (negative : Bool) (mantissa : Nat) (exponent : Int)
  | infinite (negative : Bool)
  | notANumber

/-- The bits of positive infinity. -/
def infinityBits : Nat := 2047 * Nat.pow 2 52

def isNegative (x : Binary64) : Bool := decide (Nat.pow 2 63 ≤ x.bits.toNat)

/-- The bits without the sign. -/
def magnitude (x : Binary64) : Nat := x.bits.toNat % Nat.pow 2 63

def reading (x : Binary64) : Reading :=
  let biased : Nat := x.magnitude / Nat.pow 2 52
  let fraction : Nat := x.magnitude % Nat.pow 2 52
  if biased = 2047 then
    if fraction = 0 then .infinite x.isNegative else .notANumber
  else if biased = 0 then .finite x.isNegative fraction (-1074)
  else .finite x.isNegative (Nat.pow 2 52 + fraction) ((biased : Int) - 1075)

/-- Above zero, infinity included and not-a-number excluded. -/
def isPositive (x : Binary64) : Bool :=
  decide (0 < x.bits.toNat) && decide (x.bits.toNat ≤ infinityBits)

def isInfinite (x : Binary64) : Bool := x.magnitude == infinityBits

/-- The number with a given sign and magnitude bits. -/
def signed (negative : Bool) (magnitude : Nat) : Binary64 :=
  ⟨UInt64.ofNat (magnitude + if negative then Nat.pow 2 63 else 0)⟩

def one : Binary64 := ⟨0x3FF0000000000000⟩

def notANumber : Binary64 := ⟨0x7FF8000000000000⟩

/-- The natural nearest to a ratio; a half goes to the even neighbour. -/
def nearestNat (num den : Nat) : Nat :=
  let q := num / den
  let r := num % den
  if 2 * r < den then q
  else if den < 2 * r then q + 1
  else if q % 2 = 0 then q else q + 1

/-- The exponent of the last kept bit of `num / den`: 53 bits are kept, fewer below `2^-1022`. -/
def lastExponent (num den : Nat) : Int :=
  let t : Int := (num.log2 : Int) - (den.log2 : Int)
  let reaches := decide (den * Nat.pow 2 t.toNat ≤ num * Nat.pow 2 (-t).toNat)
  max (-1074) (if reaches then t - 52 else t - 53)

/-- The magnitude bits nearest to `num / den`; too large a ratio gives infinity. Adding the
rounded mantissa to the exponent field lets a carry move on to the next exponent. -/
def ratioBits (num den : Nat) : Nat :=
  if num = 0 then 0
  else
    let e := lastExponent num den
    let q := nearestNat (num * Nat.pow 2 (-e).toNat) (den * Nat.pow 2 e.toNat)
    min ((e + 1074).toNat * Nat.pow 2 52 + q) infinityBits

def ofRatio (negative : Bool) (num den : Nat) : Binary64 := signed negative (ratioBits num den)

def ofInt (n : Int) : Binary64 := ofRatio (decide (n < 0)) n.natAbs 1

/-- The exact rational value of `±m · 2^e`. -/
def rational (negative : Bool) (m : Nat) (e : Int) : Rat :=
  let size : Int := (m * Nat.pow 2 e.toNat : Nat)
  mkRat (if negative then -size else size) (Nat.pow 2 (-e).toNat)

/-- The integer part of `±m · 2^e`, towards zero. -/
def integerPart (negative : Bool) (m : Nat) (e : Int) : Int :=
  let size : Int := (m * Nat.pow 2 e.toNat / Nat.pow 2 (-e).toNat : Nat)
  if negative then -size else size

def negate (x : Binary64) : Binary64 := signed (!x.isNegative) x.magnitude

/-- What an operation without a result gives. -/
def indefinite : Binary64 := signed true (2047 * Nat.pow 2 52 + Nat.pow 2 51)

/-- The integer `±m · 2^(e - low)`, for `low ≤ e`. -/
def scaled (negative : Bool) (m : Nat) (e low : Int) : Int :=
  let size : Int := (m * Nat.pow 2 (e - low).toNat : Nat)
  if negative then -size else size

/-- The sum, rounded once. A sum of zero is negative only for two negative zeros. -/
def add (x y : Binary64) : Binary64 :=
  match x.reading, y.reading with
  | .notANumber, _ => x
  | _, .notANumber => y
  | .infinite s, .infinite t => if s = t then x else indefinite
  | .infinite _, _ => x
  | _, .infinite _ => y
  | .finite s m e, .finite t n f =>
    let low := min e f
    let sum := scaled s m e low + scaled t n f low
    if sum = 0 then signed (s && t) 0
    else ofRatio (decide (sum < 0)) (sum.natAbs * Nat.pow 2 low.toNat) (Nat.pow 2 (-low).toNat)

/-- The remainder from zero up to a positive size; a negative number is lifted by the size, and the
lifted one is rounded. -/
def remainder (x : Binary64) (size : Nat) : Binary64 :=
  match x.reading with
  | .notANumber => x
  | .infinite _ => indefinite
  | .finite negative m e =>
    let den := Nat.pow 2 (-e).toNat
    let rest := m * Nat.pow 2 e.toNat % (size * den)
    if rest = 0 then signed false 0
    else ofRatio false (if negative then size * den - rest else rest) den

def toFloat (x : Binary64) : Float := Float.ofBits x.bits

end Binary64

end CellCollapse
