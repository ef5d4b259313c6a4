import CellCollapse.Number.Binary64

set_option autoImplicit false

/-!
# Shortest decimal text of a binary number

A positive binary number is written with the fewest decimal digits that read back as the same
number; of two such texts the nearer one is taken, and on a tie the even one. `Shortest.decimal`
finds the digits in exact arithmetic, `Binary64.text` lays them out.
-/
namespace CellCollapse

namespace Shortest

/-- A positive decimal `digits · 10^exponent`. -/
structure Decimal where
  digits : Nat
  exponent : Int

/-- The number of decimal digits of a natural; zero has none. -/
def digitCount (n : Nat) : Nat := if n = 0 then 0 else (Nat.toDigits 10 n).length

/-- The `k` with `10^(k-1) ≤ num / den < 10^k`. -/
def decimalPoint (num den : Nat) : Int :=
  if den ≤ num then (digitCount (num / den) : Int)
  else 1 - (digitCount ((den + num - 1) / num - 1) : Int)

/-- The interval of the numbers that round to `num / den`, over the denominator `4 * den`. -/
structure Interval where
  low : Nat
  value : Nat
  high : Nat
  den : Nat
  closed : Bool

/-- The rounding interval of `m · 2^e`. Below a power of two the spacing halves. -/
def interval (m : Nat) (e : Int) : Interval :=
  let scale := Nat.pow 2 e.toNat
  let below := if m = Nat.pow 2 52 ∧ -1074 < e then 1 else 2
  { low := (4 * m - below) * scale
    value := 4 * m * scale
    high := (4 * m + 2) * scale
    den := 4 * Nat.pow 2 (-e).toNat
    closed := m % 2 == 0 }

/-- Whether `d · 10^k` lies in the interval. -/
def Interval.holds (i : Interval) (d : Nat) (k : Int) : Bool :=
  let x := d * Nat.pow 10 k.toNat * i.den
  let unit := Nat.pow 10 (-k).toNat
  if i.closed then decide (i.low * unit ≤ x) && decide (x ≤ i.high * unit)
  else decide (i.low * unit < x) && decide (x < i.high * unit)

/-- The grid point of `10^k` in the interval that is nearest to its value, if there is one. -/
def Interval.gridPoint? (i : Interval) (k : Int) : Option Nat :=
  let num := i.value * Nat.pow 10 (-k).toNat
  let den := i.den * Nat.pow 10 k.toNat
  let d := num / den
  match i.holds d k, i.holds (d + 1) k with
  | false, false => none
  | true, false => some d
  | false, true => some (d + 1)
  | true, true => some (Binary64.nearestNat num den)

/-- Searches the grids of 1, 2, … digits; 17 digits always suffice. -/
def search (i : Interval) (point : Int) (digits : Nat) : Nat → Decimal
  | 0 =>
    let k := point - (digits : Int)
    ⟨i.value * Nat.pow 10 (-k).toNat / (i.den * Nat.pow 10 k.toNat), k⟩
  | fuel + 1 =>
    let k := point - (digits : Int)
    match i.gridPoint? k with
    | some d => ⟨d, k⟩
    | none => search i point (digits + 1) fuel

/-- The shortest decimal of `m · 2^e`, for a positive `m`. -/
def decimal (m : Nat) (e : Int) : Decimal :=
  let i := interval m e
  search i (decimalPoint i.value i.den) 1 17

/-- The digits of a decimal without trailing zeros, and the position of the point in them. -/
def Decimal.layout (d : Decimal) : List Char × Int :=
  let cs := Nat.toDigits 10 d.digits
  ((cs.reverse.dropWhile (· == '0')).reverse, (cs.length : Int) + d.exponent)

end Shortest

namespace Binary64

/-- Digits with the point at `point`: positional for exponents from -4 to 15, else scientific with
an exponent of at least two digits. -/
def placeDigits (cs : List Char) (point : Int) : String :=
  let exponent := point - 1
  if -4 ≤ exponent ∧ exponent < 16 then
    if point ≤ 0 then
      "0." ++ String.ofList (List.replicate (-point).toNat '0' ++ cs)
    else
      let whole := cs.take point.toNat
      let fraction := cs.drop point.toNat
      String.ofList (whole ++ List.replicate (point.toNat - whole.length) '0') ++ "."
        ++ (if fraction.isEmpty then "0" else String.ofList fraction)
  else
    let lead := String.ofList (cs.take 1)
    let rest := cs.drop 1
    let size := toString exponent.natAbs
    lead ++ (if rest.isEmpty then "" else "." ++ String.ofList rest)
      ++ "e" ++ (if exponent < 0 then "-" else "+")
      ++ (if size.length < 2 then "0" ++ size else size)

/-- The shortest text that reads back as the same number. -/
def text (x : Binary64) : String :=
  match x.reading with
  | .notANumber => "nan"
  | .infinite negative => if negative then "-inf" else "inf"
  | .finite negative m e =>
    (if negative then "-" else "") ++
      (if m = 0 then "0.0"
       else
         let (cs, point) := (Shortest.decimal m e).layout
         placeDigits cs point)

end Binary64

end CellCollapse
