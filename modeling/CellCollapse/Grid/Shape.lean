import CellCollapse.Fault.Basic
import CellCollapse.Value.Number

set_option autoImplicit false

/-!
# Shapes of grids

A shape gives the size of a grid along each axis. Its coordinates are enumerated in row-major
order, and `rank?` is the place of a coordinate in that order.
-/
namespace CellCollapse

/-- One entry per axis. A coordinate may also lie outside of the grid. -/
abbrev Coord := List Int

/-- The step along each axis. -/
abbrev Delta := List Int

/-- The number of cells of a box with the given sizes. -/
def volume : List Nat → Nat
  | [] => 1
  | s :: ss => s * volume ss

/-- The coordinates of a box in row-major order. -/
def boxCoords : List Nat → List Coord
  | [] => [[]]
  | s :: ss => (List.range s).flatMap fun (i : Nat) => (boxCoords ss).map ((i : Int) :: ·)

theorem length_boxCoords (ss : List Nat) : (boxCoords ss).length = volume ss := by
  induction ss with
  | nil => rfl
  | cons s ss ih => simp [boxCoords, volume, List.length_flatMap, ih, List.map_const']

/-- The place of a coordinate in row-major order, if it lies inside of the box. -/
def rank? : (ss : List Nat) → Coord → Option (Fin (volume ss))
  | [], [] => some ⟨0, Nat.one_pos⟩
  | s :: ss, p :: ps =>
    if h : 0 ≤ p ∧ p < s then
      (rank? ss ps).map fun r => ⟨p.toNat * volume ss + r.val, by
        have hp : p.toNat + 1 ≤ s := by omega
        calc p.toNat * volume ss + r.val
            < p.toNat * volume ss + volume ss := Nat.add_lt_add_left r.isLt _
          _ = (p.toNat + 1) * volume ss := (Nat.succ_mul _ _).symm
          _ ≤ s * volume ss := Nat.mul_le_mul_right _ hp⟩
    else none
  | _, _ => none

/-- The sizes of a grid: at least one axis, and at least one cell along each. -/
structure Shape where
  sizes : List Nat
  nonempty : sizes ≠ []
  positive : ∀ s ∈ sizes, 0 < s

namespace Shape

def volume (s : Shape) : Nat := CellCollapse.volume s.sizes

def axes (s : Shape) : Nat := s.sizes.length

/-- The most axes that a grid may have. -/
def maxAxes : Nat := 64

/-- The sizes from here on are too large for a word. -/
def sizeBound : Nat := Nat.pow 2 63

/-- The numbers of cells from here on are too large, a cell taking eight bytes. -/
def volumeBound : Nat := Nat.pow 2 60

/-- The numbers of cells from here on do not fit into memory. -/
def memoryBound : Nat := Nat.pow 2 31

/-- Refuses a shape that cannot be stored. -/
def bounded (s : Shape) : Except Fault Shape :=
  if maxAxes < s.axes then .error (.tooManyAxes s.axes)
  else if s.sizes.any (sizeBound ≤ ·) then .error .sizeTooLarge
  else if volumeBound ≤ s.volume then .error .tooManyCells
  else if memoryBound ≤ s.volume then .error (.outOfMemory s.sizes (8 * s.volume))
  else .ok s

/-- Accepts the sizes of a grid. -/
def ofSizes (sizes : List Int) : Except Fault Shape :=
  if h : sizes ≠ [] ∧ ∀ s ∈ sizes, 1 ≤ s then
    bounded ⟨sizes.map Int.toNat, by simpa using h.1, by
      intro s hs
      obtain ⟨z, hz, rfl⟩ := List.mem_map.1 hs
      have := h.2 z hz
      omega⟩
  else .error (.invalidShape sizes)

/-- Reads sizes of any form; all of them are read before the shape is judged. -/
def read (sizes : List Value) : Except Fault Shape := do
  ofSizes (← sizes.mapM Value.toSize)

def coordinates (s : Shape) : List Coord := boxCoords s.sizes

/-- The coordinates, as many as there are cells. -/
def coordinateVector (s : Shape) : Vector Coord s.volume :=
  ⟨s.coordinates.toArray, by simp [coordinates, length_boxCoords, volume]⟩

end Shape

/-- The unit steps along each axis, back before forth. -/
def unitSteps (axes : Nat) : List Delta :=
  (List.range axes).flatMap fun axis =>
    [-1, 1].map fun step => (List.replicate axes 0).set axis step

/-- The steps along a chain, which has a single axis. -/
def chainSteps : List Delta := [[-1], [1]]

end CellCollapse
