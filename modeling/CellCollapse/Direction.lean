import CellCollapse.Grid.Shape

set_option autoImplicit false

/-!
# Directions

The four directions of a plane, with their steps in rows and columns.
-/
namespace CellCollapse

inductive Direction where
  | left
  | right
  | up
  | down
deriving DecidableEq

namespace Direction

def all : List Direction := [.left, .right, .up, .down]

def name : Direction → String
  | .left => "LEFT"
  | .right => "RIGHT"
  | .up => "UP"
  | .down => "DOWN"

def number : Direction → Nat
  | .left => 0
  | .right => 1
  | .up => 2
  | .down => 3

theorem number_lt (d : Direction) : d.number < 4 := by
  cases d <;> decide

def reverse : Direction → Direction
  | .left => .right
  | .right => .left
  | .up => .down
  | .down => .up

/-- The step in rows and columns. -/
def vector : Direction → Delta
  | .left => [0, -1]
  | .right => [0, 1]
  | .up => [-1, 0]
  | .down => [1, 0]

/-- The direction with a given name. -/
def ofName (v : Value) : Except Fault Direction :=
  match all.find? fun d => Value.text d.name == v with
  | some d => .ok d
  | none => .error (.unknownKey v)

/-- The direction with a given number, in whatever form the number comes. -/
def ofNumber (v : Value) : Except Fault Direction :=
  match all.find? fun d => Value.int d.number == v with
  | some d => .ok d
  | none => .error (.notDirection v)

end Direction

end CellCollapse
