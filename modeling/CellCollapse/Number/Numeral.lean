import CellCollapse.Number.Binary64
import CellCollapse.Text.Charts

set_option autoImplicit false

/-!
# Reading numerals

Integers and decimal numbers as they are written in text: an optional sign, digits of any script,
single underscores between digits, and blanks around the whole. A decimal number is read as the
nearest binary one.
-/
namespace CellCollapse.Numeral

open CellCollapse.Text

/-- The characters between the blanks at either end. -/
def trim (cs : List Char) : List Char :=
  ((cs.dropWhile isBlank).reverse.dropWhile isBlank).reverse

/-- Splits off a sign; the flag tells a minus. -/
def splitSign : List Char → Bool × List Char
  | '-' :: cs => (true, cs)
  | '+' :: cs => (false, cs)
  | cs => (false, cs)

/-- The digits of a run in which single underscores may stand between digits. -/
def digitRun? : List Char → Option (List Nat)
  | [] => none
  | [c] => (digit? c).map ([·])
  | c :: '_' :: cs => (digit? c).bind fun d => (digitRun? cs).map (d :: ·)
  | c :: c' :: cs => (digit? c).bind fun d => (digitRun? (c' :: cs)).map (d :: ·)

def ofDigits (ds : List Nat) : Nat := ds.foldl (fun n d => 10 * n + d) 0

/-- Reads an integer numeral. -/
def readInt? (s : String) : Option Int :=
  let (negative, cs) := splitSign (trim s.toList)
  (digitRun? cs).map fun ds =>
    let n : Int := ofDigits ds
    if negative then -n else n

/-- The most digits that an integer numeral may have. -/
def digitLimit : Nat := 4300

/-- The number of digits that an integer numeral begins with, if there are too many. What follows
them does not count. -/
def excess? (s : String) : Option Nat :=
  let (_, cs) := splitSign (s.toList.dropWhile isBlank)
  match digitRun? (cs.takeWhile fun c => (digit? c).isSome || c == '_') with
  | some ds => if digitLimit < ds.length then some ds.length else none
  | none => none

/-- Drops the underscores of a text in which each stands between two digits. -/
def dropUnderscores? : (afterDigit : Bool) → List Char → Option (List Char)
  | _, [] => some []
  | true, '_' :: c :: cs => if (digit? c).isSome then dropUnderscores? false (c :: cs) else none
  | _, c :: cs => if c == '_' then none else (dropUnderscores? (digit? c).isSome cs).map (c :: ·)

/-- Splits off the leading digits. -/
def splitDigits : List Char → List Nat × List Char
  | [] => ([], [])
  | c :: cs =>
    match digit? c with
    | some d => (d :: (splitDigits cs).1, (splitDigits cs).2)
    | none => ([], c :: cs)

/-- Reads an exponent part up to the end of the text; no exponent part counts as zero. -/
def readExponent? : List Char → Option Int
  | [] => some 0
  | c :: cs =>
    if c == 'e' || c == 'E' then
      let (negative, rest) := splitSign cs
      match splitDigits rest with
      | (d :: ds, []) => some (if negative then -(ofDigits (d :: ds) : Int) else ofDigits (d :: ds))
      | _ => none
    else none

/-- The number `±n · 10^e`. Exponents far outside of the format are settled by their size. -/
def decimalValue (negative : Bool) (n : Nat) (e : Int) : Binary64 :=
  let size : Int := ((Nat.toDigits 10 n).length : Int) + e
  if n = 0 then .signed negative 0
  else if 310 < size then .signed negative Binary64.infinityBits
  else if size < -330 then .signed negative 0
  else .ofRatio negative (n * Nat.pow 10 e.toNat) (Nat.pow 10 (-e).toNat)

/-- Reads an unsigned decimal with an optional fraction and exponent. -/
def readDecimal? (negative : Bool) (cs : List Char) : Option Binary64 :=
  let (whole, rest) := splitDigits cs
  let (fraction, rest) :=
    match rest with
    | '.' :: more => splitDigits more
    | more => ([], more)
  if whole.isEmpty && fraction.isEmpty then none
  else (readExponent? rest).map fun e =>
    decimalValue negative (ofDigits (whole ++ fraction)) (e - fraction.length)

/-- Reads a number: a decimal, or a name of infinity or of not-a-number in any case. -/
def readNumber? (s : String) : Option Binary64 :=
  (dropUnderscores? false (trim s.toList)).bind fun cs =>
    let (negative, rest) := splitSign cs
    let name := String.ofList (rest.map Char.toLower)
    if name == "inf" || name == "infinity" then
      some (.signed negative Binary64.infinityBits)
    else if name == "nan" then some Binary64.notANumber
    else readDecimal? negative rest

end CellCollapse.Numeral
