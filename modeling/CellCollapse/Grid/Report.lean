import CellCollapse.Grid.Basic
import CellCollapse.Grid.NestedArray

set_option autoImplicit false

/-!
# Reports of a grid

The report of a grid gives the value of each decided cell, in row-major order. Every other cell
shows the backdrop, which is a nested array stretched over the grid.
-/
namespace CellCollapse.Grid

variable {σ : Type}

/-- The values of a grid before a backdrop. -/
def report (g : Grid σ) (value? : σ → Option Value) (backdrop : Value) :
    Except Fault (List Value) := do
  let behind ← (← NestedArray.ofValue backdrop).stretch g.shape.sizes
  return List.zipWith (fun s b => (value? s).getD b) g.cells.toList behind

end CellCollapse.Grid
