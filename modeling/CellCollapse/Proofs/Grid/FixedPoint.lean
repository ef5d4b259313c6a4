import CellCollapse.Proofs.Grid.Chain

set_option autoImplicit false

/-!
# Fixed points of propagation

When a propagation is over, an undecided cell that all of its neighbors look back at would not
change if it reacted once more. On a grid a neighbor looks back along the opposite offset. Without
the opposite offset nobody wakes the cell when its neighbor shrinks, and a propagation can end
before the cells are at rest.
-/
namespace CellCollapse

namespace Table

variable {α κ δ ρ : Type} [BEq α] [EquivBEq α] {n : Nat} {t : Table α δ} {space : Space κ δ n}
  {r : Run (Possibilities α) κ ρ n}

theorem collapse_eq_self_of_supported {c : κ} {i : Fin n}
    (complete : (space.neighbors c t.offsets).found.length = t.offsets.length)
    (supported : ∀ v ∈ (r.cells.get i).toList, t.Supported space r.cells c v) (x : ρ) :
    t.collapse (r.cells.get i) (space.views t.offsets r.cells c) x =
      ⟨r.cells.get i, space.views t.offsets r.cells c, x, none⟩ := by
  have room : (space.views t.offsets r.cells c).length ≤ t.offsets.length := by
    rw [space.length_views]
    omega
  have kept : ∀ v ∈ (r.cells.get i).toList,
      t.keeps (space.views t.offsets r.cells c) v = true := by
    intro v hv
    exact (t.keeps_iff v room).2 ((backed_iff_supported v).2 (supported v hv))
  rw [t.collapse_eq _ room, Possibilities.filter_eq_self kept]

end Table

namespace Grid

variable {α ρ : Type} [BEq α] {n : Nat} (g : Grid (Fin n))

theorem answered_of_negate {offsets : List Delta} (matching : ∀ D ∈ offsets, D.length = g.axes)
    {c : Coord} (mem : c ∈ g.coordinates)
    (returns : ∀ D ∈ offsets, (g.offset c D).isSome → negate D ∈ offsets) :
    g.space.Answered offsets c := by
  intro k d hd
  obtain ⟨D, hD, hoffset, back⟩ := g.neighbor?_back matching mem hd
  have leads : (g.offset c D).isSome := by simp [hoffset]
  obtain ⟨l, hl⟩ := List.mem_iff_getElem?.1 (returns D (List.mem_of_getElem? hD) leads)
  exact ⟨l, back l hl⟩

variable [EquivBEq α] [AsValue α]

/-- Whenever a propagation of a collapse is over, an undecided cell would not react any more, as
long as every offset that leads to a neighbor of it has its opposite in the table. -/
theorem propagate_fixed_point (apart : Function.Injective g.cells.get) (t : Table α Delta)
    (matching : ∀ D ∈ t.offsets, D.length = g.axes) (choose : Chooser ρ) (pick : TieBreak ρ)
    (cells : Vector (Possibilities α) n) (context : ρ) {k : Nat}
    {r q : Run (Possibilities α) Coord ρ n}
    (reached : (t.engine choose pick g.space).moment cells context k = .running r)
    (returned : (t.engine choose pick g.space).propagate r = .finished q)
    {c : Coord} (mem : c ∈ g.coordinates)
    (returns : ∀ D ∈ t.offsets, (g.offset c D).isSome → negate D ∈ t.offsets) :
    ∃ i, g.space.slot c = .ok i ∧ ((q.cells.get i).entropy ≠ 0 → ∀ x : ρ,
      t.collapse (q.cells.get i) (g.space.views t.offsets q.cells c) x =
        ⟨q.cells.get i, g.space.views t.offsets q.cells c, x, none⟩) := by
  have lawful := g.space_lawful t.offsets
  obtain ⟨i, hi⟩ := g.get_of_mem mem
  refine ⟨i, hi, ?_⟩
  intro undecided x
  obtain ⟨m, hm, idle, _⟩ := Engine.drain_finished reached returned
  have steady := Table.steadyAt_moment lawful (g.space_apart apart) mem
    (g.answered_of_negate matching mem returns) hm
  have complete : (g.space.neighbors c t.offsets).found.length = t.offsets.length := by
    change (g.neighbors c t.offsets t.offsets.length).found.length = _
    rw [g.neighbors_eq matching, List.length_map]
  exact Table.collapse_eq_self_of_supported complete (steady.supported idle hi undecided) x

-- Value 5 has no entry, so every cell loses it; the first cell is then undecided and at rest.
theorem propagate_fixed_point_tripleGrid :
    ∃ r q, (Table.alternating.engine (fun _ _ x => (.ok 0, x)) (fun _ x => (0, x))
          tripleGrid.space).moment (Vector.replicate 3 (.ofList [0, 1, 5])) () 0 = .running r ∧
      (Table.alternating.engine (fun _ _ x => (.ok 0, x)) (fun _ x => (0, x))
        tripleGrid.space).propagate r = .finished q ∧
      (q.cells.get 0).toList = [0, 1] ∧
      Table.alternating.collapse (q.cells.get 0)
          (tripleGrid.space.views Table.alternating.offsets q.cells [0]) () =
        ⟨q.cells.get 0, tripleGrid.space.views Table.alternating.offsets q.cells [0], (),
          none⟩ := by
  obtain ⟨r, q, reached, returned, left⟩ : ∃ r q, (Table.alternating.engine
      (fun _ _ x => (.ok 0, x)) (fun _ x => (0, x)) tripleGrid.space).moment
          (Vector.replicate 3 (.ofList [0, 1, 5])) () 0 = .running r ∧
      (Table.alternating.engine (fun _ _ x => (.ok 0, x)) (fun _ x => (0, x))
        tripleGrid.space).propagate r = .finished q ∧ (q.cells.get 0).toList = [0, 1] := by
    with_unfolding_all exact ⟨_, _, rfl, rfl, rfl⟩
  obtain ⟨i, hi, rests⟩ := tripleGrid.propagate_fixed_point (by unfold Function.Injective; decide)
    Table.alternating (by decide) _ _ _ _ reached returned (c := [0]) (by decide) (by decide)
  cases (show tripleGrid.space.slot [0] = .ok 0 from rfl).symm.trans hi
  have undecided : (q.cells.get 0).entropy ≠ 0 := by
    simp [Possibilities.entropy, Possibilities.size, left]
  exact ⟨r, q, reached, returned, left, rests undecided ()⟩

/-- The cell in the middle takes the value of the last one, but the first cell, which looks at the
middle, has had its turn already. -/
theorem propagate_rests_early :
    ∃ t q, Table.make [[1]] (.ofList [(0, [[0]]), (1, [[1]])]) .empty = .ok t ∧
      (Table.engine t (fun _ _ x => (.ok 0, x)) (fun _ x => (0, x)) tripleGrid.space).settle
        #v[.ofList [(0 : Int), 1], .ofList [0, 1], .only 0] () = .finished q ∧
      (q.cells.get 0).toList = [0, 1] ∧
      (t.collapse (q.cells.get 0) (tripleGrid.space.views t.offsets q.cells [0]) ()).cell.toList =
        [0] := by
  with_unfolding_all exact ⟨_, _, rfl, rfl, rfl, rfl⟩

end Grid

end CellCollapse
