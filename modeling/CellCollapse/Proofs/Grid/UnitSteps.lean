import CellCollapse.Proofs.Rule.Symmetric

set_option autoImplicit false

/-!
# Symmetric tables along unit steps

The unit steps of a grid are all different and as long as the grid has axes, so a symmetric table
along them is mirrored and a collapse decides neighbors consistently, on a periodic grid as well.
The exception is an axis of a single cell: there a periodic step leads back to the cell itself. Such
a cell is observed next to what it was before, and never asked whether it may stand beside itself.
-/
namespace CellCollapse

theorem set_replicate_inj {n a b : Nat} {x y : Int} (ha : a < n) (hx : x ≠ 0)
    (h : (List.replicate n 0).set a x = (List.replicate n 0).set b y) : a = b ∧ x = y := by
  have hat : ((List.replicate n 0).set b y)[a]? = some x := by
    rw [← h, List.getElem?_set_self (by simpa using ha)]
  rw [List.getElem?_set] at hat
  by_cases hab : b = a
  · subst hab
    simp only [if_true, List.length_replicate, ha, Option.some.injEq] at hat
    exact ⟨rfl, hat.symm⟩
  · simp only [hab, if_false, List.getElem?_replicate, ha, if_true, Option.some.injEq] at hat
    exact absurd hat.symm hx

theorem length_of_mem_unitSteps {n : Nat} {D : Delta} (h : D ∈ unitSteps n) : D.length = n := by
  obtain ⟨axis, _, hD⟩ := List.mem_flatMap.1 h
  obtain ⟨step, _, rfl⟩ := List.mem_map.1 hD
  simp

theorem nodup_unitSteps (n : Nat) : (unitSteps n).Nodup := by
  have nonzero : ∀ x ∈ [(-1 : Int), 1], x ≠ 0 := by decide
  rw [unitSteps, List.nodup_flatMap]
  constructor
  · intro axis haxis
    refine List.Nodup.map_on ?_ (by decide)
    intro x hx y _ h
    exact (set_replicate_inj (List.mem_range.1 haxis) (nonzero x hx) h).2
  · refine List.nodup_range.pairwise_of_forall_ne ?_
    intro a ha b _ hne D hD hD'
    obtain ⟨x, hx, rfl⟩ := List.mem_map.1 hD
    obtain ⟨y, _, h⟩ := List.mem_map.1 hD'
    exact hne (set_replicate_inj (List.mem_range.1 ha) (nonzero x hx) h.symm).1

theorem Space.contradictions_eq_nil_iff {α κ δ : Type} [BEq α] {n : Nat} (space : Space κ δ n)
    (cells : Vector (Possibilities α) n) :
    space.contradictions Possibilities.isEmpty cells = [] ↔ space.Filled cells := by
  rw [contradictions, List.filter_eq_nil_iff]
  refine forall₂_congr fun c _ => ?_
  cases hslot : space.slot c with
  | error f => simp [get, hslot, Except.map]
  | ok i => simp [get, hslot, Except.map]

namespace Grid

variable {α ρ : Type} [BEq α] [EquivBEq α] [AsValue α] {n : Nat} (g : Grid (Fin n))

/-- A collapse of a periodic grid that leaves no cell empty is consistent between any two different
neighbors. -/
theorem collapse_symmetric_consistent (periodic : g.periodic = true)
    (apart : Function.Injective g.cells.get) {triples : List (Adjacency α)}
    {weights : Assoc α Value} {t : Table α Delta}
    (built : Symmetric.table (unitSteps g.axes) triples weights = .ok t)
    (choose : Chooser ρ) (pick : TieBreak ρ) (cells : Vector (Possibilities α) n) (context : ρ)
    (undecided : ∀ c ∈ g.coordinates, ∀ i, g.space.slot c = .ok i → (cells.get i).entropy ≠ 0)
    {r : Run (Possibilities α) Coord ρ n}
    (returned : (t.engine choose pick g.space).collapse cells context = .finished r)
    (sound : g.space.contradictions Possibilities.isEmpty r.cells = []) {c : Coord}
    (mem : c ∈ g.coordinates) {k : Nat} (hk : k < t.offsets.length) :
    ∃ d, g.space.neighbor? t.offsets c k = some d ∧ (c ≠ d →
      ∃ i j v w, g.space.slot c = .ok i ∧ g.space.slot d = .ok j ∧
        (r.cells.get i).value? = some v ∧ (r.cells.get j).value? = some w ∧
        t.permits v k w = true) := by
  have mirrored := Symmetric.table_mirrored (nodup_unitSteps g.axes) built
  obtain ⟨hoffsets, closed, _⟩ := Symmetric.table_ok built
  rw [← hoffsets] at closed
  have matching : ∀ D ∈ t.offsets, D.length = g.axes := by
    intro D hD
    rw [hoffsets] at hD
    exact length_of_mem_unitSteps hD
  obtain ⟨d, hd⟩ := offset_periodic g.shape.sizes c t.offsets[k]
  have next : g.space.neighbor? t.offsets c k = some d := by
    refine (g.neighbor?_eq_some_iff matching c d k).2 ⟨_, List.getElem?_eq_getElem hk, ?_⟩
    rw [Grid.offset, periodic, hd]
  refine ⟨d, next, ?_⟩
  intro other
  have lawful := g.space_lawful t.offsets
  have filled := (g.space.contradictions_eq_nil_iff r.cells).1 sound
  have memD := lawful.closed c mem k d next
  obtain ⟨i, hi⟩ := g.get_of_mem mem
  obtain ⟨j, hj⟩ := g.get_of_mem memD
  obtain ⟨v, w, hv, hw, permits⟩ := Table.permits_of_finished_of_ne lawful (g.space_apart apart)
    (g.space_balanced matching closed mirrored) returned mem next other hi hj
    (filled c mem i hi) (filled d memD j hj) fun both => undecided c mem i hi both.1
  exact ⟨i, j, v, w, hi, hj, hv, hw, permits⟩

/-- Zeros and ones, never two of a kind side by side. -/
def zeroBesideOne : List (Adjacency Int) := [⟨0, .int 0, 1⟩, ⟨0, .int 1, 1⟩]

theorem collapse_symmetric_consistent_ringGrid :
    ∃ t r, Symmetric.table (unitSteps 1) zeroBesideOne .empty = .ok t ∧
      (t.engine (fun _ _ x => (.ok 0, x)) (fun _ x => (0, x)) ringGrid.space).collapse
        (Vector.replicate 4 (.ofList [0, 1])) () = .finished r ∧
      ∃ v w, (r.cells.get 3).value? = some v ∧ (r.cells.get 0).value? = some w ∧
        t.permits v 1 w = true := by
  obtain ⟨t, r, built, returned, sound, width, next⟩ : ∃ t r,
      Symmetric.table (unitSteps 1) zeroBesideOne .empty = .ok t ∧
      (t.engine (fun _ _ x => (.ok 0, x)) (fun _ x => (0, x)) ringGrid.space).collapse
        (Vector.replicate 4 (.ofList [0, 1])) () = .finished r ∧
      ringGrid.space.contradictions Possibilities.isEmpty r.cells = [] ∧
      1 < t.offsets.length ∧ ringGrid.space.neighbor? t.offsets [3] 1 = some [0] := by
    with_unfolding_all exact ⟨_, _, rfl, rfl, rfl, by decide, rfl⟩
  have undecided : ∀ i, ((Vector.replicate 4 (Possibilities.ofList [(0 : Int), 1])).get i).entropy ≠
      0 := by decide
  obtain ⟨d, hd, consistent⟩ := ringGrid.collapse_symmetric_consistent rfl
    (by unfold Function.Injective; decide) built _ _ _ _ (fun _ _ i _ => undecided i) returned sound
    (c := [3]) (by decide) width
  cases next.symm.trans hd
  obtain ⟨i, j, v, w, hi, hj, hv, hw, permits⟩ := consistent (by decide)
  cases (show ringGrid.space.slot [3] = .ok 3 from rfl).symm.trans hi
  cases (show ringGrid.space.slot [0] = .ok 0 from rfl).symm.trans hj
  exact ⟨t, r, built, returned, v, w, hv, hw, permits⟩

/-- A single cell, on both sides of itself. -/
def loopGrid : Grid (Fin 1) := ⟨⟨[1], by decide, by decide⟩, true, #v[⟨0, Nat.one_pos⟩]⟩

/-- The cell ends up with a zero beside its own zero, and no contradiction is reported. -/
theorem collapse_beside_itself :
    ∃ t r, Symmetric.table (unitSteps 1) zeroBesideOne .empty = .ok t ∧
      (t.engine (fun _ _ x => (.ok 0, x)) (fun _ x => (0, x)) loopGrid.space).collapse
        #v[.ofList [0, 1]] () = .finished r ∧
      loopGrid.space.contradictions Possibilities.isEmpty r.cells = [] ∧
      loopGrid.space.neighbor? t.offsets [0] 0 = some [0] ∧
      (r.cells.get 0).value? = some 0 ∧ t.permits 0 0 0 = false := by
  with_unfolding_all exact ⟨_, _, rfl, rfl, rfl, rfl, rfl, rfl⟩

end Grid

end CellCollapse
