import CellCollapse.Grid.Shape

set_option autoImplicit false

/-!
# Nested arrays

A value with nested tuples, taken as an array: each level of nesting is an axis, and all rows of
an axis must have one length. There are no more than 64 axes. The entries of an array are brought to
one type. `NestedArray.stretch` repeats an array over a larger shape.
-/
namespace CellCollapse

/-- A box of values in row-major order. `uniform` tells whether the entries share a type. -/
structure NestedArray where
  shape : List Nat
  entries : List Value
  uniform : Bool

namespace NestedArray

/-- The axes found in a value, and whether its rows agree below them. -/
structure Outline where
  shape : List Nat
  regular : Bool

def commonPart : List Nat → List Nat → List Nat
  | a :: as, b :: bs => if a = b then a :: commonPart as bs else []
  | _, _ => []

def Outline.meet (x y : Outline) : Outline :=
  ⟨commonPart x.shape y.shape, x.regular && y.regular && x.shape == y.shape⟩

mutual

/-- The outline of a value with no more axes than given; a tuple below them is irregular. -/
def outline : Nat → Value → Outline
  | 0, .tuple _ => ⟨[], false⟩
  | _ + 1, .tuple [] => ⟨[0], true⟩
  | axes + 1, .tuple (v :: vs) =>
    let rows := outlineRows axes (outline axes v) vs
    ⟨(vs.length + 1) :: rows.shape, rows.regular⟩
  | _, _ => ⟨[], true⟩

/-- The outline that rows have in common, begun with that of the rows before. -/
def outlineRows (axes : Nat) (before : Outline) : List Value → Outline
  | [] => before
  | v :: vs => outlineRows axes (before.meet (outline axes v)) vs

end

mutual

/-- The scalars of a value in order. -/
def scalars : Value → List Value
  | .tuple items => scalarsOf items
  | v => [v]

def scalarsOf : List Value → List Value
  | [] => []
  | v :: vs => scalars v ++ scalarsOf vs

end

/-- Integers that fit a signed 64-bit word. -/
def fitsSigned (n : Int) : Bool :=
  decide (-(Nat.pow 2 63 : Int) ≤ n) && decide (n < (Nat.pow 2 63 : Int))

/-- Integers that fit only an unsigned 64-bit word. -/
def fitsUnsigned (n : Int) : Bool :=
  decide ((Nat.pow 2 63 : Int) ≤ n) && decide (n < (Nat.pow 2 64 : Int))

/-- Entries that no common type takes up. -/
def isLoose : Value → Bool
  | .null => true
  | .int n => !fitsSigned n && !fitsUnsigned n
  | .tuple _ => true
  | _ => false

def isSigned : Value → Bool
  | .int n => fitsSigned n
  | _ => false

def isUnsigned : Value → Bool
  | .int n => fitsUnsigned n
  | _ => false

/-- A text of fixed width loses the NULs at its end. -/
def fixedText (s : String) : String :=
  String.ofList ((s.toList.reverse.dropWhile (·.toNat == 0)).reverse)

def asText : Value → Value
  | .text s => .text (fixedText s)
  | v => .text v.written

def asFloat : Value → Value
  | .bool b => .ofBinary (.ofInt (if b then 1 else 0))
  | .int n => .ofBinary (.ofInt n)
  | v => v

def asInt : Value → Value
  | .bool b => .int (if b then 1 else 0)
  | v => v

/-- Brings entries to one type: texts if there is a text, else numbers of the widest form. Signed
and unsigned integers have only the binary numbers in common. -/
def unify (vs : List Value) : List Value :=
  if vs.any Value.isText then vs.map asText
  else if vs.any Value.isFloat || (vs.any isSigned && vs.any isUnsigned) then vs.map asFloat
  else if vs.all Value.isBool then vs
  else vs.map asInt

def ofValue (v : Value) : Except Fault NestedArray :=
  let o := outline Shape.maxAxes v
  if o.regular then
    let vs := scalars v
    if vs.any isLoose then .ok ⟨o.shape, vs, false⟩ else .ok ⟨o.shape, unify vs, true⟩
  else if o.shape.length = Shape.maxAxes then .error .tooDeep
  else .error (.ragged o.shape)

/-- Repeats rows of entries along a shape, from the outermost axis on. Source and target have
equally many axes. -/
def repeatRows : (source target : List Nat) → List Value → Option (List Value)
  | [], [], vs => some vs
  | a :: as, b :: bs, vs =>
    let width := volume as
    let rows := (List.range a).map fun i => (vs.drop (i * width)).take width
    match rows.mapM (repeatRows as bs) with
    | none => none
    | some wide =>
      if a = b then some wide.flatten
      else if a = 1 then some (List.replicate b wide.flatten).flatten
      else none
  | _, _, _ => none

/-- Drops leading axes of length 1 until no more than the given number of axes is left. -/
def dropOnes (axes : Nat) : List Nat → List Nat
  | 1 :: as => if axes < as.length + 1 then dropOnes axes as else 1 :: as
  | as => as

/-- Stretches an array to a shape. Axes are matched from the last one, and missing axes count
as 1. -/
def stretch (a : NestedArray) (target : List Nat) : Except Fault (List Value) :=
  let source := dropOnes target.length a.shape
  if target.length < source.length then .error (.broadcast source target)
  else
    let padded := List.replicate (target.length - source.length) 1 ++ source
    match repeatRows padded target a.entries with
    | some vs => .ok vs
    | none => .error (.broadcast source target)

end NestedArray

end CellCollapse
