import CellCollapse.Proofs.Rule.Local

set_option autoImplicit false

/-!
# Consistency of collapsed grids

On a grid the way back from a neighbor is the opposite offset. So if a table has the opposite of
every offset and says the same from both ends, a finished collapse leaves no two filled neighbors
that may not stand beside each other, unless both were decided before the run.
-/
namespace CellCollapse

/-- Read along opposite offsets, the table says the same from both ends. -/
def Table.Mirrored {α : Type} [BEq α] (t : Table α Delta) : Prop :=
  ∀ k l D, t.offsets[k]? = some D → t.offsets[l]? = some (negate D) →
    ∀ a b, t.permits a k b = t.permits b l a

namespace Grid

variable {α ρ : Type} [BEq α] {n : Nat} (g : Grid (Fin n)) {t : Table α Delta}

theorem space_balanced (matching : ∀ D ∈ t.offsets, D.length = g.axes)
    (closed : ∀ D ∈ t.offsets, negate D ∈ t.offsets) (mirrored : t.Mirrored) :
    t.Balanced g.space := by
  intro c hc k d hd
  obtain ⟨D, hD, _, back⟩ := g.neighbor?_back matching hc hd
  obtain ⟨l, hl⟩ := List.mem_iff_getElem?.1 (closed D (List.mem_of_getElem? hD))
  exact ⟨l, back l hl, mirrored k l D hD hl⟩

theorem space_loopless {offsets : List Delta} (matching : ∀ D ∈ offsets, D.length = g.axes)
    (moving : ∀ c ∈ g.coordinates, ∀ D ∈ offsets, g.offset c D ≠ some c) :
    g.space.Loopless offsets := by
  intro c hc k hk
  obtain ⟨D, hD, hoffset⟩ := (g.neighbor?_eq_some_iff matching c c k).1 hk
  exact moving c hc D (List.mem_of_getElem? hD) hoffset

variable [EquivBEq α] [AsValue α]

/-- A finished collapse of a grid is consistent wherever it decided one of two neighbors. -/
theorem collapse_locally_consistent (apart : Function.Injective g.cells.get) (t : Table α Delta)
    (matching : ∀ D ∈ t.offsets, D.length = g.axes)
    (closed : ∀ D ∈ t.offsets, negate D ∈ t.offsets) (mirrored : t.Mirrored)
    (moving : ∀ c ∈ g.coordinates, ∀ D ∈ t.offsets, g.offset c D ≠ some c)
    (choose : Chooser ρ) (pick : TieBreak ρ) (cells : Vector (Possibilities α) n) (context : ρ)
    {r : Run (Possibilities α) Coord ρ n}
    (returned : (t.engine choose pick g.space).collapse cells context = .finished r)
    {c d : Coord} {k : Nat} (mem : c ∈ g.coordinates)
    (next : g.space.neighbor? t.offsets c k = some d) :
    ∃ i j, g.space.slot c = .ok i ∧ g.space.slot d = .ok j ∧
      ((r.cells.get i).isEmpty = false → (r.cells.get j).isEmpty = false →
        ¬ ((cells.get i).entropy = 0 ∧ (cells.get j).entropy = 0) →
          ∃ v w, (r.cells.get i).value? = some v ∧ (r.cells.get j).value? = some w ∧
            t.permits v k w = true) := by
  have lawful := g.space_lawful t.offsets
  obtain ⟨i, hi⟩ := g.get_of_mem mem
  obtain ⟨j, hj⟩ := g.get_of_mem (lawful.closed c mem k d next)
  refine ⟨i, j, hi, hj, ?_⟩
  intro filledC filledD live
  exact Table.permits_of_finished lawful (g.space_apart apart)
    (g.space_balanced matching closed mirrored) (g.space_loopless matching moving) returned mem next
    hi hj filledC filledD live

theorem permits_alternating {k : Nat} (hk : k < 2) (a b : Int) :
    Table.alternating.permits a k b = true ↔ a = 0 ∧ 1 = b ∨ a = 1 ∧ 0 = b := by
  match k, hk with
  | 0, _ | 1, _ =>
    by_cases h0 : a = 0
    · subst h0
      simp [Table.permits, Table.entry?, Table.alternating]
    · by_cases h1 : a = 1
      · subst h1
        simp [Table.permits, Table.entry?, Table.alternating]
      · simp [Table.permits, Table.entry?, Table.alternating, h0, h1, Ne.symm h0, Ne.symm h1]

theorem mirrored_alternating : Table.alternating.Mirrored := by
  intro k l D hk hl a b
  have bound : ∀ m E, Table.alternating.offsets[m]? = some E → m < 2 :=
    fun m E h => (List.getElem?_eq_some_iff.1 h).1
  rw [Bool.eq_iff_iff, permits_alternating (bound k _ hk), permits_alternating (bound l _ hl)]
  omega

/-- A ring of four cells. -/
def ringGrid : Grid (Fin 4) := ⟨⟨[4], by decide, by decide⟩, true, #v[0, 1, 2, 3]⟩

-- The last cell of the ring and the first one, which only an observation can tell apart.
theorem collapse_locally_consistent_ringGrid :
    ∃ r, (Table.alternating.engine (fun _ _ x => (.ok 0, x)) (fun _ x => (0, x))
        ringGrid.space).collapse (Vector.replicate 4 (.ofList [0, 1])) () = .finished r ∧
      ∃ v w, (r.cells.get 3).value? = some v ∧ (r.cells.get 0).value? = some w ∧
        Table.alternating.permits v 1 w = true := by
  obtain ⟨r, returned, last, first⟩ : ∃ r, (Table.alternating.engine (fun _ _ x => (.ok 0, x))
      (fun _ x => (0, x)) ringGrid.space).collapse (Vector.replicate 4 (.ofList [0, 1])) () =
        .finished r ∧ (r.cells.get 3).isEmpty = false ∧ (r.cells.get 0).isEmpty = false := by
    with_unfolding_all exact ⟨_, rfl, rfl, rfl⟩
  obtain ⟨i, j, hi, hj, consistent⟩ := ringGrid.collapse_locally_consistent
    (by unfold Function.Injective; decide) Table.alternating (by decide) (by decide)
    mirrored_alternating (by decide) _ _ _ _ returned (c := [3]) (d := [0]) (k := 1) (by decide) rfl
  cases (show ringGrid.space.slot [3] = .ok 3 from rfl).symm.trans hi
  cases (show ringGrid.space.slot [0] = .ok 0 from rfl).symm.trans hj
  exact ⟨r, returned, consistent last first (by decide)⟩

end Grid

end CellCollapse
