import CellCollapse.Number.Binary64

set_option autoImplicit false

/-!
# Sizes in bytes

A number of bytes is written with a binary unit and three digits, or with all the digits before the
point where there are four of them. Halves go to the even neighbour.
-/
namespace CellCollapse.ByteSize

/-- The units from one byte on, each 1024 times the one before. -/
def units : List String := ["bytes", "KiB", "MiB", "GiB", "TiB", "PiB", "EiB"]

/-- The unit that leaves a number of bytes below 1024 even after rounding. -/
def unitIndex (bytes : Nat) : Nat :=
  let k := max bytes.log2 1 / 10
  if Binary64.nearestNat bytes (Nat.pow 1024 k) = 1024 then k + 1 else k

/-- The number `n / 10^places` with its point. -/
def pointed (n places : Nat) : String :=
  let fraction := toString (n % Nat.pow 10 places)
  toString (n / Nat.pow 10 places) ++ "."
    ++ (if places = 0 then ""
        else String.ofList (List.replicate (places - fraction.length) '0') ++ fraction)

/-- A ratio with three digits, or with more if there are more before the point. -/
def threeDigits (num den : Nat) : String :=
  let rounded (places : Nat) := Binary64.nearestNat (num * Nat.pow 10 places) den
  if rounded 2 < 1000 then pointed (rounded 2) 2
  else if rounded 1 < 1000 then pointed (rounded 1) 1
  else pointed (rounded 0) 0

def text (bytes : Nat) : String :=
  let k := unitIndex bytes
  (if k = 0 then toString bytes else threeDigits bytes (Nat.pow 1024 k)) ++ " " ++ units.getD k ""

end CellCollapse.ByteSize
