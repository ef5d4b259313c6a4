import CellCollapse.Fault.Basic

set_option autoImplicit false

/-!
# Random choices

The two kinds of choice that a collapse makes, as functions on the state `ρ` of a random source:
a uniform choice among equally good cells, and a weighted choice among the values of a cell.
-/
namespace CellCollapse

/-- A choice among `n + 1` candidates. -/
abbrev TieBreak (ρ : Type) := (n : Nat) → ρ → Fin (n + 1) × ρ

/-- A choice by weight. The list of weights is given by its head and tail. -/
abbrev Chooser (ρ : Type) :=
  (w : Binary64) → (ws : List Binary64) → ρ → Except Fault (Fin (ws.length + 1)) × ρ

namespace Chooser

/-- The first place whose running sum exceeds `x`, or the last place. `sum` is the running sum up
to the head. -/
def locate (x : Float) : (sum : Float) → (ws : List Binary64) → Fin (ws.length + 1)
  | _, [] => 0
  | sum, w :: ws => if x < sum then 0 else (locate x (sum + w.toFloat) ws).succ

/-- The sum of the weights from left to right, rounded at every step. -/
def total (w : Binary64) (ws : List Binary64) : Float :=
  ws.foldl (fun sum v => sum + v.toFloat) w.toFloat

/-- Draws a number below one and goes that far into the weights. Nothing is drawn if the total is
not finite. -/
def weighted {ρ : Type} (draw : ρ → Float × ρ) : Chooser ρ := fun w ws s =>
  if (total w ws).isFinite then
    let (u, s) := draw s
    (.ok (locate (u * total w ws) w.toFloat ws), s)
  else (.error .totalNotFinite, s)

end Chooser

end CellCollapse
