import CellCollapse.Fault.Kind
import CellCollapse.Number.ByteSize
import CellCollapse.Value.Written

set_option autoImplicit false

/-!
# Faults

The causes for which an operation of the library is refused. `Fault.kind` classifies a cause and
`Fault.message` words it.
-/
namespace CellCollapse

inductive Fault where
  /-- A shape without axes, or with a size below one. -/
  | invalidShape (sizes : List Int)
  /-- More axes than an array may have. -/
  | tooManyAxes (axes : Nat)
  /-- A size that no word holds. -/
  | sizeTooLarge
  /-- More cells than can be addressed. -/
  | tooManyCells
  /-- More cells than the memory holds. -/
  | outOfMemory (sizes : List Nat) (bytes : Nat)
  /-- A coordinate with the wrong number of entries, or outside of the grid. -/
  | outsideGrid (coord : Value) (sizes : List Nat)
  /-- A delta with the wrong number of entries. -/
  | deltaLength (delta : Value) (axes : Nat)
  /-- A coordinate inside of the grid with an entry that is no integer. -/
  | notAnIndex
  /-- A coordinate with truth values, which names a part of the grid and no cell. -/
  | notACell
  /-- More neighbors than the buffer has places. -/
  | noRoom
  /-- A neighbor beyond the offsets of the rule. -/
  | missingOffset
  /-- A look-up of something unknown. -/
  | unknownKey (key : Value)
  /-- A tile that the sample does not hold. -/
  | notListed (value : Value)
  /-- A number that is no direction's. -/
  | notDirection (value : Value)
  /-- A table row that does not have one set per offset. -/
  | rowWidth (value : Value) (sets offsets : Nat)
  /-- Weights for values that the table does not hold. -/
  | unknownWeights (values : List Value)
  /-- Weights that are not above zero. -/
  | nonPositiveWeights (values : List Value)
  /-- An offset whose negation is not listed. -/
  | noOpposite (offset opposite : Value)
  /-- An adjacency along an offset that does not exist. -/
  | offsetIndex (index : Value) (offsets : Nat)
  /-- An adjacency along an offset whose number is a fraction or a binary number. -/
  | listIndex (index : Value)
  /-- The value of a cell that does not hold exactly one. -/
  | possibilityCount (count : Nat)
  /-- Weights whose sum is not finite. -/
  | totalNotFinite
  /-- An index beyond the entries along an axis of an array. -/
  | outOfBounds (index : Int) (axis size : Nat)
  /-- A sample that is empty or does not have two axes. -/
  | sampleShape (shape : List Nat)
  /-- Nested rows of different lengths below the detected shape. -/
  | ragged (shape : List Nat)
  /-- More levels of nesting than an array may have axes. -/
  | tooDeep
  /-- An array entry that is no plain scalar. -/
  | noScalar (entry : Value)
  /-- A shape that does not stretch to another. -/
  | broadcast (source target : List Nat)
  | notIterable (value : Value)
  | noLength (value : Value)
  /-- Two values without an order between them. -/
  | notOrdered (relation : String) (left right : Value)
  /-- Two values that an operation does not take. -/
  | operands (operation : String) (left right : Value)
  | noConcatenation (left right : Value)
  | noNegation (value : Value)
  /-- A text that was to be filled in and has no place for it. -/
  | noPlaceholder
  | integerText (s : String)
  /-- An integer numeral with too many digits. -/
  | tooManyDigits (count : Nat)
  | numberText (s : String)
  | infiniteSize
  | notANumberSize
  | sizeType (value : Value)
  | weightType (value : Value)
  | weightTooLarge
  /-- A fault raised by a rule, space or state from outside of the library. -/
  | foreign (kind : Kind) (message : String)

namespace Fault

def kind : Fault → Kind
  | .invalidShape _ | .outsideGrid _ _ | .deltaLength _ _ => .coordinate
  | .tooManyAxes _ | .sizeTooLarge | .tooManyCells => .value
  | .noRoom | .missingOffset | .notAnIndex | .outOfBounds _ _ _ => .index
  | .outOfMemory _ _ => .memory
  | .notACell => .attribute
  | .unknownKey _ => .key
  | .notListed _ | .notDirection _ => .value
  | .rowWidth _ _ _ | .unknownWeights _ | .nonPositiveWeights _ => .invalidRule
  | .noOpposite _ _ | .offsetIndex _ _ => .invalidRule
  | .possibilityCount _ => .unresolvedState
  | .totalNotFinite | .sampleShape _ | .ragged _ | .tooDeep | .broadcast _ _ => .value
  | .noScalar _ => .attribute
  | .integerText _ | .tooManyDigits _ | .numberText _ | .notANumberSize => .value
  | .listIndex _ | .notIterable _ | .noLength _ | .notOrdered _ _ _ | .operands _ _ _ => .type
  | .noConcatenation _ _ | .noNegation _ | .noPlaceholder => .type
  | .infiniteSize | .weightTooLarge => .overflow
  | .sizeType _ | .weightType _ => .type
  | .foreign kind _ => kind

/-- A shape without blanks, as it is written where shapes do not fit each other. -/
def tightShape : List Nat → String
  | [n] => "(" ++ toString n ++ ",)"
  | ns => "(" ++ String.intercalate "," (ns.map toString) ++ ")"

def message : Fault → String
  | .invalidShape sizes => "Invalid grid shape " ++ written sizes
  | .tooManyAxes axes =>
    "maximum supported dimension for an ndarray is currently 64, found " ++ toString axes
  | .sizeTooLarge => "Maximum allowed dimension exceeded"
  | .tooManyCells =>
    "array is too big; `arr.size * arr.dtype.itemsize` is larger than the maximum possible size."
  | .outOfMemory sizes bytes =>
    "Unable to allocate " ++ ByteSize.text bytes ++ " for an array with shape " ++ written sizes
      ++ " and data type object"
  | .notAnIndex =>
    "only integers, slices (`:`), ellipsis (`...`), numpy.newaxis (`None`) and integer or boolean "
      ++ "arrays are valid indices"
  | .notACell => "'numpy.ndarray' object has no attribute 'entropy'"
  | .outsideGrid coord sizes =>
    "Coordinate " ++ written coord ++ " lies outside of the grid with shape " ++ written sizes
  | .deltaLength delta axes =>
    "Delta " ++ written delta ++ " does not match the grid dimensionality " ++ toString axes
  | .noRoom => "list assignment index out of range"
  | .missingOffset => "tuple index out of range"
  | .unknownKey key => key.written
  | .notListed value => value.written ++ " is not in list"
  | .notDirection value => value.written ++ " is not a valid Direction"
  | .rowWidth value sets offsets =>
    "Value " ++ value.written ++ " lists " ++ toString sets ++ " neighbor sets for "
      ++ toString offsets ++ " offsets"
  | .unknownWeights values => "Weights given for unknown values " ++ Value.listText values
  | .nonPositiveWeights values =>
    "Weights must be positive, got non-positive weights for " ++ Value.listText values
  | .noOpposite offset opposite =>
    "Offset " ++ written offset ++ " has no opposite offset " ++ written opposite
  | .offsetIndex index offsets =>
    "Offset index " ++ index.written ++ " is out of range for " ++ toString offsets ++ " offsets"
  | .listIndex index =>
    "list indices must be integers or slices, not " ++ index.typeName
  | .possibilityCount count =>
    "Expected exactly one possibility, found " ++ toString count
  | .totalNotFinite => "Total of weights must be finite"
  | .outOfBounds index axis size =>
    "index " ++ toString index ++ " is out of bounds for axis " ++ toString axis ++ " with size "
      ++ toString size
  | .sampleShape shape => "Expected a non-empty 2D sample array, got shape " ++ written shape
  | .ragged shape =>
    "setting an array element with a sequence. The requested array has an inhomogeneous shape "
      ++ "after " ++ toString shape.length ++ " dimensions. The detected shape was "
      ++ written shape ++ " + inhomogeneous part."
  | .tooDeep =>
    "setting an array element with a sequence. The requested array would exceed the maximum number "
      ++ "of dimension of 64."
  | .noScalar entry => "'" ++ entry.typeName ++ "' object has no attribute 'item'"
  | .broadcast source target =>
    "could not broadcast input array from shape " ++ tightShape source ++ " into shape "
      ++ tightShape target
  | .notIterable value => "'" ++ value.typeName ++ "' object is not iterable"
  | .noLength value => "object of type '" ++ value.typeName ++ "' has no len()"
  | .notOrdered relation left right =>
    "'" ++ relation ++ "' not supported between instances of '" ++ left.typeName ++ "' and '"
      ++ right.typeName ++ "'"
  | .operands operation left right =>
    "unsupported operand type(s) for " ++ operation ++ ": '" ++ left.typeName ++ "' and '"
      ++ right.typeName ++ "'"
  | .noConcatenation left right =>
    "can only concatenate " ++ left.typeName ++ " (not \"" ++ right.typeName ++ "\") to "
      ++ left.typeName
  | .noNegation value => "bad operand type for unary -: '" ++ value.typeName ++ "'"
  | .noPlaceholder => "not all arguments converted during string formatting"
  | .tooManyDigits count =>
    "Exceeds the limit (4300 digits) for integer string conversion: value has " ++ toString count
      ++ " digits; use sys.set_int_max_str_digits() to increase the limit"
  | .integerText s =>
    "invalid literal for int() with base 10: " ++ String.ofList ((Text.quoted s).toList.take 200)
  | .numberText s => "could not convert string to float: " ++ Text.quoted s
  | .infiniteSize => "cannot convert float infinity to integer"
  | .notANumberSize => "cannot convert float NaN to integer"
  | .sizeType value =>
    "int() argument must be a string, a bytes-like object or a real number, not '"
      ++ value.typeName ++ "'"
  | .weightType value =>
    "float() argument must be a string or a real number, not '" ++ value.typeName ++ "'"
  | .weightTooLarge => "int too large to convert to float"
  | .foreign _ message => message

end Fault

end CellCollapse
