import CellCollapse.Number.Shortest
import CellCollapse.Text.Quoted
import CellCollapse.Value.Basic

set_option autoImplicit false

/-!
# Written values

The written form of a value, as it stands in messages. It is also the key by which values without
an order of their own are sorted.
-/
namespace CellCollapse

namespace Value

/-- Texts with a separator between them. -/
def commaList : List String → String
  | [] => ""
  | [s] => s
  | s :: ss => s ++ ", " ++ commaList ss

/-- A bracketed tuple; one item alone keeps its comma. -/
def tupleText : List String → String
  | [s] => "(" ++ s ++ ",)"
  | ss => "(" ++ commaList ss ++ ")"

mutual

def written : Value → String
  | .null => "None"
  | .bool b => if b then "True" else "False"
  | .int n => toString n
  | .float x _ => x.text
  | .text s => Text.quoted s
  | .tuple items => tupleText (writtenAll items)

/-- The written forms of some values. -/
def writtenAll : List Value → List String
  | [] => []
  | v :: vs => written v :: writtenAll vs

end

/-- A bracketed list of values. -/
def listText (vs : List Value) : String := "[" ++ commaList (writtenAll vs) ++ "]"

end Value

/-- The written form of anything that can be shown as a value. -/
def written {α : Type} [AsValue α] (a : α) : String := (asValue a).written

/-- Sorts by the written form, by code points. Equal forms keep their order. -/
def sortWritten {α : Type} [AsValue α] (xs : List α) : List α :=
  xs.mergeSort fun a b => decide (¬ written b < written a)

end CellCollapse
