import CellCollapse.Proofs.Grid.Store
import CellCollapse.Proofs.Grid.Steps

set_option autoImplicit false

/-!
# Look-ups into a buffer

A look-up goes through its deltas in order and writes one entry for each. It stops at the first
delta that has the wrong length or for which the buffer has no room; what it has written by then
stays in the buffer, and all else is as before. Neither the coordinate nor the length of the buffer
is checked beforehand.
-/
namespace CellCollapse

namespace Lookup

variable {τ : Type} {l : Lookup τ} {buffer : List (Option τ)} {j : Nat}

theorem getElem?_overwrite_of_lt (room : l.found.length ≤ buffer.length)
    (h : j < l.found.length) : (l.overwrite buffer)[j]? = l.found[j]? := by
  rw [overwrite, List.take_of_length_le room, List.getElem?_append_left h]

theorem getElem?_overwrite_of_le (h : l.found.length ≤ j) :
    (l.overwrite buffer)[j]? = buffer[j]? := by
  have front : (l.found.take buffer.length).length ≤ j := by
    rw [List.length_take]
    omega
  rw [overwrite, List.getElem?_append_right front, List.getElem?_drop, List.length_take]
  by_cases room : l.found.length ≤ buffer.length
  · congr 1
    omega
  · rw [List.getElem?_eq_none (by omega), List.getElem?_eq_none (by omega)]

end Lookup

theorem mapM_coord?_asValue (ds : List Delta) :
    (ds.map asValue).mapM Address.coord? = some ds := by
  induction ds with
  | nil => rfl
  | cons D ds ih =>
    rw [List.map_cons, List.mapM_cons, coord?_asValue, ih]
    rfl

namespace Grid

variable {σ : Type} (g : Grid σ)

theorem neighborsAt_asValue (c : Coord) (ds : List Delta) (room : Nat) :
    g.neighborsAt (asValue c) (ds.map asValue) room = (g.neighbors c ds room).map asValue := by
  simp only [neighborsAt, coord?_asValue, mapM_coord?_asValue]

/-- What a look-up into a buffer leaves behind: the fault that stopped it, the buffer, the grid. -/
def look (address : Value) (deltas : List Value) (out : List (Option Value)) :
    Option Fault × List (Option Value) × Grid σ :=
  let l := g.neighborsAt address deltas out.length
  (l.fault, l.overwrite out, g)

/-- A look-up along integers gets to the first delta that does not fit or finds no room, or else to
the end. Up to there the buffer holds where the deltas lead, and from there on what it held. -/
theorem look_fills (c : Coord) (ds : List Delta) (out : List (Option Value)) :
    ∃ k fault out', g.look (asValue c) (ds.map asValue) out = (fault, out', g) ∧
      out'.length = out.length ∧
      (∀ j < k, ∃ D, ds[j]? = some D ∧ D.length = g.axes ∧ j < out.length ∧
        out'[j]? = some ((g.offset c D).map asValue)) ∧
      (∀ j, k ≤ j → out'[j]? = out[j]?) ∧
      (k = ds.length ∧ fault = none ∨
        ∃ D f, ds[k]? = some D ∧ fault = some f ∧
          (D.length ≠ g.axes ∧ f = .deltaLength (asValue D) g.axes ∧ f.kind = .coordinate ∨
            D.length = g.axes ∧ out.length ≤ k ∧ f = .noRoom ∧ f.kind = .index)) := by
  let l := g.neighbors c ds out.length
  have room : l.found.length ≤ out.length := g.length_found_le c ds out.length
  have width : (l.map asValue).found.length = l.found.length := List.length_map _
  have looked : g.look (asValue c) (ds.map asValue) out =
      (l.fault, (l.map asValue).overwrite out, g) := by
    simp only [look, neighborsAt_asValue]
    rfl
  refine ⟨l.found.length, l.fault, _, looked, Lookup.length_overwrite _ _, ?_, ?_, ?_⟩
  · intro j hj
    obtain ⟨D, hD, fits, entry⟩ := g.getElem?_neighbors (List.getElem?_eq_getElem hj)
    refine ⟨D, hD, fits, by omega, ?_⟩
    rw [Lookup.getElem?_overwrite_of_lt (by omega) (by omega), Lookup.map, List.getElem?_map,
      List.getElem?_eq_getElem hj, entry]
    rfl
  · intro j hj
    exact Lookup.getElem?_overwrite_of_le (by omega)
  · exact g.neighbors_end c ds out.length

-- The last delta is too short and there is no room for it either; its length is what counts.
example :
    let ds : List Delta := [[0, -1], [4, 4], [1]]
    closedBand.look (asValue ([0, 0] : Coord)) (ds.map asValue) [some (.int 7), none] =
      (some (.deltaLength (asValue ([1] : Delta)) 2),
        [some (asValue ([0, 2] : Coord)), some (asValue ([0, 1] : Coord))], closedBand) := rfl

end Grid

end CellCollapse
