import CellCollapse.Grid.Shape
import CellCollapse.Space

set_option autoImplicit false

/-!
# Grids

A grid keeps one entry per cell of a box. It is a space once its entries are slots of states:
`Grid.space`. On a periodic grid every axis is a circle; otherwise a step over the edge leads
nowhere.
-/
namespace CellCollapse

structure Grid (σ : Type) where
  shape : Shape
  periodic : Bool
  cells : Vector σ shape.volume

/-- The coordinate that a delta leads to inside of a box. Axes beyond the shortest of sizes,
coordinate and delta do not count. -/
def offset (periodic : Bool) : List Nat → Coord → Delta → Option Coord
  | s :: ss, p :: ps, d :: ds =>
    if periodic then (offset periodic ss ps ds).map (((p + d) % (s : Int)) :: ·)
    else if 0 ≤ p + d ∧ p + d < s then (offset periodic ss ps ds).map ((p + d) :: ·)
    else none
  | _, _, _ => some []

namespace Grid

variable {σ : Type}

/-- Fills a grid, asking for the entry of each coordinate once and in row-major order. -/
def build {m : Type → Type} [Monad m] (shape : Shape) (periodic : Bool) (entry : Coord → m σ) :
    m (Grid σ) := do
  let cells ← shape.coordinateVector.mapM entry
  return ⟨shape, periodic, cells⟩

/-- The grid with every entry changed. -/
def map {τ : Type} (f : σ → τ) (g : Grid σ) : Grid τ := ⟨g.shape, g.periodic, g.cells.map f⟩

def coordinates (g : Grid σ) : List Coord := g.shape.coordinates

def axes (g : Grid σ) : Nat := g.shape.axes

def size (g : Grid σ) : Nat := g.coordinates.length

def get (g : Grid σ) (c : Coord) : Except Fault σ :=
  match rank? g.shape.sizes c with
  | some k => .ok (g.cells.get k)
  | none => .error (.outsideGrid (asValue c) g.shape.sizes)

def set (g : Grid σ) (c : Coord) (s : σ) : Except Fault (Grid σ) :=
  match rank? g.shape.sizes c with
  | some k => .ok { g with cells := g.cells.set k.val s k.isLt }
  | none => .error (.outsideGrid (asValue c) g.shape.sizes)

def offset (g : Grid σ) (c : Coord) (d : Delta) : Option Coord :=
  CellCollapse.offset g.periodic g.shape.sizes c d

/-- Looks up the neighbors along some deltas, for a buffer with the given room. -/
def neighbors (g : Grid σ) (c : Coord) : List Delta → (room : Nat) → Lookup Coord
  | [], _ => .done
  | d :: ds, room =>
    if d.length ≠ g.axes then .stop (.deltaLength (asValue d) g.axes)
    else
      match room with
      | 0 => .stop .noRoom
      | room + 1 => .cons (g.offset c d) (g.neighbors c ds room)

/-- The space of a grid whose entries are slots. -/
def space {n : Nat} (g : Grid (Fin n)) : Space Coord Delta n where
  coordinates := g.coordinates
  slot := g.get
  neighbors c ds := g.neighbors c ds ds.length
  nowhere _ := false

end Grid

end CellCollapse
