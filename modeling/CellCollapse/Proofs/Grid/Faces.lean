import CellCollapse.Proofs.Grid.UnitSteps
import CellCollapse.Proofs.Grid.Steps
import CellCollapse.Proofs.Rule.Adjacencies

set_option autoImplicit false

/-!
# Unit steps in pairs

The unit steps are the vectors of integers whose absolute entries add up to one. The two steps along
an axis stand side by side in the list, each the negation of the other. So a symmetric table along
unit steps is refused for a misplaced index only, and what stands before a cell along an axis has
the cell behind it along the same axis, also where the axis is so short that both are the same cell.
-/
namespace CellCollapse

theorem getElem?_flatMap_pair {α β : Type} (p q : α → β) (l : List α) (i : Nat) :
    (l.flatMap fun x => [p x, q x])[2 * i]? = l[i]?.map p ∧
      (l.flatMap fun x => [p x, q x])[2 * i + 1]? = l[i]?.map q := by
  induction l generalizing i with
  | nil => exact ⟨rfl, rfl⟩
  | cons x l ih =>
    cases i with
    | zero => exact ⟨rfl, rfl⟩
    | succ i => exact ih i

section Vectors

variable {n a : Nat} {D : Delta}

theorem negate_set_replicate (n a : Nat) (x : Int) :
    negate ((List.replicate n 0).set a x) = (List.replicate n 0).set a (-x) := by
  rw [negate, List.map_set, List.map_replicate, Int.neg_zero]

theorem sum_natAbs_set (h : a < n) (x : Int) :
    (((List.replicate n 0).set a x).map Int.natAbs).sum = x.natAbs := by
  induction n generalizing a with
  | zero => omega
  | succ n ih =>
    rw [List.replicate_succ]
    cases a with
    | zero => simp
    | succ a => simpa using ih (Nat.lt_of_succ_lt_succ h)

theorem eq_replicate_of_sum (h : (D.map Int.natAbs).sum = 0) : D = List.replicate D.length 0 := by
  induction D with
  | nil => rfl
  | cons x D ih =>
    rw [List.map_cons, List.sum_cons] at h
    have hx : x = 0 := by omega
    rw [hx, List.length_cons, List.replicate_succ, ← ih (by omega)]

theorem exists_axis_of_sum (h : (D.map Int.natAbs).sum = 1) :
    ∃ a < D.length, ∃ x ∈ [(-1 : Int), 1], (List.replicate D.length 0).set a x = D := by
  induction D with
  | nil => cases h
  | cons y D ih =>
    rw [List.map_cons, List.sum_cons] at h
    rw [List.length_cons, List.replicate_succ]
    -- The first entry other than zero takes up the whole sum.
    by_cases hy : y = 0
    · obtain ⟨a, ha, x, hx, heq⟩ := ih (by omega)
      exact ⟨a + 1, Nat.succ_lt_succ ha, x, hx, by rw [List.set_cons_succ, heq, hy]⟩
    · have zeros := eq_replicate_of_sum (D := D) (by omega)
      have unit : y = -1 ∨ y = 1 := by omega
      exact ⟨0, Nat.succ_pos _, y, by simpa using unit, by rw [List.set_cons_zero, ← zeros]⟩

theorem mem_unitSteps_iff (n : Nat) (D : Delta) :
    D ∈ unitSteps n ↔ D.length = n ∧ (D.map Int.natAbs).sum = 1 := by
  simp only [unitSteps, List.mem_flatMap, List.mem_range, List.mem_map]
  constructor
  · rintro ⟨a, ha, x, hx, rfl⟩
    have unit : x = -1 ∨ x = 1 := by simpa using hx
    refine ⟨by simp, ?_⟩
    rw [sum_natAbs_set ha]
    omega
  · rintro ⟨rfl, h⟩
    exact exists_axis_of_sum h

theorem length_unitSteps (n : Nat) : (unitSteps n).length = 2 * n := by
  simp [unitSteps, List.length_flatMap, Nat.mul_comm]

theorem getElem?_unitSteps (h : a < n) : ∃ D, (unitSteps n)[2 * a]? = some D ∧
    (unitSteps n)[2 * a + 1]? = some (negate D) := by
  have steps := getElem?_flatMap_pair (fun axis => (List.replicate n (0 : Int)).set axis (-1))
    (fun axis => (List.replicate n (0 : Int)).set axis 1) (List.range n) a
  rw [List.getElem?_range h] at steps
  refine ⟨_, steps.1, ?_⟩
  rw [negate_set_replicate]
  exact steps.2

theorem negate_mem_unitSteps (h : D ∈ unitSteps n) : negate D ∈ unitSteps n := by
  obtain ⟨length, sum⟩ := (mem_unitSteps_iff n D).1 h
  refine (mem_unitSteps_iff n _).2 ⟨by rw [negate, List.length_map, length], ?_⟩
  rw [negate, List.map_map, ← sum]
  congr 1
  exact List.map_congr_left fun x _ => Int.natAbs_neg x

end Vectors

theorem idxOf_of_nodup {ds : List Delta} (nodup : ds.Nodup) {i : Nat} {D : Delta}
    (h : ds[i]? = some D) : ds.idxOf D = i := by
  obtain ⟨hi, rfl⟩ := List.getElem?_eq_some_iff.1 h
  exact nodup.idxOf_getElem i hi

theorem Symmetric.getElem?_opposite_unitSteps {n a : Nat} (h : a < n) :
    (opposite (unitSteps n))[2 * a]? = some (2 * a + 1) ∧
      (opposite (unitSteps n))[2 * a + 1]? = some (2 * a) := by
  have nodup := nodup_unitSteps n
  obtain ⟨D, back, forth⟩ := getElem?_unitSteps h
  simp only [opposite, List.getElem?_map, back, forth, Option.map_some, negate_negate]
  exact ⟨congrArg some (idxOf_of_nodup nodup forth), congrArg some (idxOf_of_nodup nodup back)⟩

namespace Grid

variable {σ : Type} (g : Grid σ)

/-- A step and the opposite step connect the same cells. -/
theorem offset_eq_some_iff {c d : Coord} (hc : Inside g.shape.sizes c)
    (hd : Inside g.shape.sizes d) {D : Delta} (matching : D.length = g.axes) :
    g.offset c D = some d ↔ g.offset d (negate D) = some c := by
  constructor
  · exact offset_negate hc matching
  · intro back
    have forth := offset_negate hd (by rwa [negate, List.length_map]) back
    rwa [Symmetric.negate_negate] at forth

/-- One of two cells is before the other along an axis if and only if the other is behind it. -/
theorem before_iff_behind {c d : Coord} (hc : c ∈ g.coordinates) (hd : d ∈ g.coordinates) {a : Nat}
    (h : a < g.axes) :
    (g.neighbors c (unitSteps g.axes) (2 * g.axes)).found[2 * a]? = some (some d) ↔
      (g.neighbors d (unitSteps g.axes) (2 * g.axes)).found[2 * a + 1]? = some (some c) := by
  have matching : ∀ D ∈ unitSteps g.axes, D.length = g.axes := fun D => length_of_mem_unitSteps
  obtain ⟨D, back, forth⟩ := getElem?_unitSteps h
  rw [mem_coordinates_iff] at hc hd
  rw [← length_unitSteps g.axes, g.found_eq_some_iff matching, g.found_eq_some_iff matching,
    back, forth]
  simp only [Option.some.injEq, exists_eq_left']
  exact g.offset_eq_some_iff hc hd (matching D (List.mem_of_getElem? back))

end Grid

/-- The unit steps come in pairs of opposite steps, and they are the vectors whose absolute entries
add up to one. A symmetric table along them is refused for an index out of range only, and tables
and grids are symmetric pair by pair. -/
theorem unitSteps_pair_up (α : Type) [BEq α] [EquivBEq α] [AsValue α] (n : Nat) :
    ((unitSteps n).length = 2 * n ∧ (unitSteps n).Nodup ∧
      (∀ a < n, ∃ D, (unitSteps n)[2 * a]? = some D ∧
        (unitSteps n)[2 * a + 1]? = some (negate D) ∧ negate (negate D) = D) ∧
      ∀ D, D ∈ unitSteps n ↔ D.length = n ∧ (D.map Int.natAbs).sum = 1) ∧
    (∃ opp, Symmetric.opposites (unitSteps n) (unitSteps n) = .ok opp ∧ ∀ a < n,
      opp[2 * a]? = some (2 * a + 1) ∧ opp[2 * a + 1]? = some (2 * a)) ∧
    (∀ triples : List (Adjacency α), (∀ s ∈ triples, ∃ z, s.index.whole? = some z) →
      (∀ f, Symmetric.table (unitSteps n) triples .empty = .error f → ∃ s ∈ triples, ∃ z,
        s.index.whole? = some z ∧ ¬ (0 ≤ z ∧ z < 2 * n) ∧ f = .offsetIndex s.index (2 * n)) ∧
      ∀ t, Symmetric.table (unitSteps n) triples .empty = .ok t →
        (∀ s ∈ triples, ∀ z, s.index.whole? = some z → 0 ≤ z ∧ z < 2 * n) ∧
        ∀ a < n, ∀ x y, t.permits x (2 * a) y = t.permits y (2 * a + 1) x) ∧
    ∀ {σ : Type} (g : Grid σ), g.axes = n → ∀ c ∈ g.coordinates, ∀ d ∈ g.coordinates, ∀ a < n,
      ((g.neighbors c (unitSteps n) (2 * n)).found[2 * a]? = some (some d) ↔
        (g.neighbors d (unitSteps n) (2 * n)).found[2 * a + 1]? = some (some c)) := by
  have closed : ∀ D ∈ unitSteps n, negate D ∈ unitSteps n := fun D => negate_mem_unitSteps
  refine ⟨⟨length_unitSteps n, nodup_unitSteps n, ?_, mem_unitSteps_iff n⟩,
    ⟨_, Symmetric.opposites_of_closed closed, fun a => Symmetric.getElem?_opposite_unitSteps⟩,
    ?_, ?_⟩
  · intro a ha
    obtain ⟨D, back, forth⟩ := getElem?_unitSteps ha
    exact ⟨D, back, forth, Symmetric.negate_negate D⟩
  · intro triples whole
    constructor
    · intro f refused
      obtain ⟨s, hs, misplaced⟩ := Symmetric.fault_of_table closed refused
      obtain ⟨z, hz⟩ := whole s hs
      rw [Symmetric.place_eq_error_iff hz, length_unitSteps] at misplaced
      exact ⟨s, hs, z, hz, by simpa using misplaced.1, misplaced.2⟩
    · intro t made
      obtain ⟨offsets, _, placed, _⟩ := Symmetric.table_ok made
      constructor
      · intro s hs z hz
        obtain ⟨i, hi⟩ := placed s hs
        rw [Symmetric.place_eq_ok_iff, hz, Option.some.injEq, length_unitSteps] at hi
        omega
      · intro a ha x y
        obtain ⟨D, back, forth⟩ := getElem?_unitSteps ha
        rw [← offsets] at back forth
        exact Symmetric.table_mirrored (nodup_unitSteps n) made _ _ D back forth x y
  · rintro σ g rfl c hc d hd a ha
    exact g.before_iff_behind hc hd ha

-- A band of one cell by three, closed both ways: across the band a cell is on both sides of itself.
theorem unitSteps_pair_up_closedBand :
    (∃ t, Symmetric.table (unitSteps 2) [⟨(0 : Int), .int 2, 1⟩] .empty = .ok t ∧
      t.permits 0 2 1 = t.permits 1 3 0) ∧
    (Grid.closedBand.neighbors [0, 0] (unitSteps 2) 4).found[1]? = some (some [0, 0]) ∧
    (Grid.closedBand.neighbors [0, 2] (unitSteps 2) 4).found[3]? = some (some [0, 0]) := by
  obtain ⟨_, _, tables, sides⟩ := unitSteps_pair_up Int 2
  refine ⟨?_, ?_, ?_⟩
  · obtain ⟨refused, paired⟩ := tables [⟨0, .int 2, 1⟩] (by simp [Value.whole?])
    cases made : Symmetric.table (unitSteps 2) [⟨(0 : Int), .int 2, 1⟩] .empty with
    | error f =>
      obtain ⟨s, hs, z, hz, outside, _⟩ := refused f made
      cases List.mem_singleton.1 hs
      cases hz
      exact absurd (by decide) outside
    | ok t => exact ⟨t, rfl, (paired t made).2 1 (by decide) 0 1⟩
  · exact (sides Grid.closedBand rfl [0, 0] (by decide) [0, 0] (by decide) 0 (by decide)).1 rfl
  · exact (sides Grid.closedBand rfl [0, 0] (by decide) [0, 2] (by decide) 1 (by decide)).1 rfl

end CellCollapse
