import CellCollapse.Space

set_option autoImplicit false

/-!
# Rules

A rule looks at a cell together with snapshots of its neighbors, one per offset and absent where
the space ends. It changes nothing but the cell it is given, the snapshots, and a context of its
own, such as a random source.
-/
namespace CellCollapse

/-- What a rule leaves behind; with a fault, what it had done up to then. -/
structure Reply (σ ρ : Type) where
  cell : σ
  snapshots : List (Option σ)
  context : ρ
  fault : Option Fault

structure Rule (σ δ ρ : Type) where
  offsets : List δ
  /-- Shrinks a cell to what its neighbors allow. -/
  collapse : σ → List (Option σ) → ρ → Reply σ ρ
  /-- Settles a cell on one value. -/
  observe : σ → List (Option σ) → ρ → Reply σ ρ

end CellCollapse
