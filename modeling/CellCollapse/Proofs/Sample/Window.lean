import CellCollapse.Proofs.Rule.Solution
import CellCollapse.Proofs.Sample.Collapse

set_option autoImplicit false

/-!
# Windows of a sample

A grid that is no larger than a sample can be laid over it, in one or more ways. Every such window
shows a solution of the rule of the sample (`Sample.solution_window`), so the propagation before the
first observation keeps all of them at once.
-/
namespace CellCollapse.Sample

variable {α ρ : Type} {n : Nat} {s : Sample α} {g : Grid (Fin n)} {h w : Nat}

/-- What a grid shows that is laid over the sample some rows down and some columns to the right. -/
def window (s : Sample α) (blank : α) (down right : Nat) (c : Coord) : α :=
  match c with
  | [y, x] => (s.tile? (y.toNat + down) (x.toNat + right)).getD blank
  | _ => blank

theorem window_eq {blank a : α} {down right y x : Nat}
    (h : s.tile? (y + down) (x + right) = some a) : s.window blank down right [y, x] = a := by
  simp only [window, Int.toNat_natCast, h, Option.getD_some]

variable [BEq α] [EquivBEq α] [AsValue α] {t : Table α Delta}

theorem solution_window (table : s.table = .ok t) (sizes : g.shape.sizes = [h, w])
    (bounded : g.periodic = false) {down right : Nat} (hdown : down + h ≤ s.height)
    (hright : right + w ≤ s.width) (blank : α) :
    t.Solution g.space (Vector.replicate n s.anyTile) (s.window blank down right) where
  offers := by
    intro c hc i _
    obtain ⟨y, x, rfl, hy, hx⟩ := g.exists_of_mem_plane sizes hc
    obtain ⟨a, ha⟩ := s.exists_tile? (y := y + down) (x := x + right) (by omega) (by omega)
    rw [get_replicate, contains_anyTile, window_eq ha, List.any_eq_true]
    exact ⟨a, mem_flatten_of_tile? ha, BEq.rfl⟩
  fits := by
    intro c hc k d hd
    have plane : g.axes = 2 := congrArg List.length sizes
    have hd' := (g.space_lawful t.offsets).closed c hc k d hd
    obtain ⟨y, x, rfl, hy, hx⟩ := g.exists_of_mem_plane sizes hc
    obtain ⟨y', x', rfl, hy', hx'⟩ := g.exists_of_mem_plane sizes hd'
    obtain ⟨a, ha⟩ := s.exists_tile? (y := y + down) (x := x + right) (by omega) (by omega)
    obtain ⟨b, hb⟩ := s.exists_tile? (y := y' + down) (x := x' + right) (by omega) (by omega)
    rw [g.neighbor?_eq_some_iff (offsets_matching table plane)] at hd
    obtain ⟨D, hD, next⟩ := hd
    rw [(entries_table table).1, List.getElem?_map, Option.map_eq_some_iff] at hD
    obtain ⟨e, he, rfl⟩ := hD
    -- A step in the grid is the same step in the sample, since both ends are moved alike.
    have step := g.vector_of_offset plane bounded next
    have adjoins : s.Adjoins e a b := by
      refine ⟨y + down, x + right, y' + down, x' + right, ?_, ha, hb⟩
      rw [step]
      simp only [List.cons.injEq, and_true]
      omega
    rw [window_eq ha, window_eq hb, permits_table table he]
    exact ⟨a, b, adjoins, BEq.rfl, BEq.rfl⟩

theorem contains_of_settled (table : s.table = .ok t) (sizes : g.shape.sizes = [h, w])
    (bounded : g.periodic = false) (apart : Function.Injective g.cells.get) {choose : Chooser ρ}
    {pick : TieBreak ρ} {context : ρ} {q : Run (Possibilities α) Coord ρ n}
    (settled : (t.engine choose pick g.space).settle (Vector.replicate n s.anyTile) context =
      .finished q) {down right : Nat} (hdown : down + h ≤ s.height) (hright : right + w ≤ s.width)
    {y x : Nat} (hy : y < h) (hx : x < w) :
    ∃ i a, g.space.slot [(y : Int), (x : Int)] = .ok i ∧ s.tile? (y + down) (x + right) = some a ∧
      (q.cells.get i).contains a = true := by
  obtain ⟨m, reached, _, unobserved⟩ := Engine.settle_finished settled
  obtain ⟨a, ha⟩ := s.exists_tile? (y := y + down) (x := x + right) (by omega) (by omega)
  have mem : [(y : Int), (x : Int)] ∈ g.space.coordinates := by
    refine (g.mem_coordinates_iff _).2 ?_
    rw [sizes]
    exact .cons (by omega) (.cons (by omega) .nil)
  obtain ⟨i, slot⟩ := g.get_of_mem mem
  have offers : g.space.Offers ((t.engine choose pick g.space).moment
      (Vector.replicate n s.anyTile) context m).run.cells (s.window a down right) := by
    refine Table.offers_of_unobserved (g.space_lawful t.offsets) (g.space_apart apart)
      (solution_window table sizes bounded hdown hright a) ?_
    rw [reached]
    exact unobserved
  rw [reached] at offers
  have holds := offers _ mem i slot
  rw [window_eq ha] at holds
  exact ⟨i, a, slot, ha, holds⟩

/-- The propagation before the first observation ends, and leaves to every cell what the sample
shows there, wherever the grid is laid over the sample. So it empties no cell. -/
theorem settle_keeps_windows (s : Sample α) (g : Grid (Fin n)) (sizes : g.shape.sizes = [h, w])
    (hh : h ≤ s.height) (hw : w ≤ s.width) (bounded : g.periodic = false)
    (apart : Function.Injective g.cells.get) (choose : Chooser ρ) (pick : TieBreak ρ)
    (context : ρ) :
    ∃ t q m, s.table = .ok t ∧
      (t.engine choose pick g.space).settle (Vector.replicate n s.anyTile) context = .finished q ∧
      (t.engine choose pick g.space).moment (Vector.replicate n s.anyTile) context m =
        .running q ∧ q.queue = [] ∧ q.observations = 0 ∧
      (∀ down right, down + h ≤ s.height → right + w ≤ s.width → ∀ y x : Nat, y < h → x < w →
        ∃ i a, g.space.slot [(y : Int), (x : Int)] = .ok i ∧
          s.tile? (y + down) (x + right) = some a ∧ (q.cells.get i).contains a = true) ∧
      ∀ c i, g.space.slot c = .ok i → (q.cells.get i).isEmpty = false := by
  obtain ⟨t, table⟩ := s.table_exists
  have matching := offsets_matching (g := g) table (congrArg List.length sizes)
  obtain ⟨q, settled⟩ := Table.settle_finishes (g.space_lawful t.offsets) (g.space_sound matching)
    choose pick (Vector.replicate n s.anyTile) context
  obtain ⟨m, reached, idle, unobserved⟩ := Engine.settle_finished settled
  refine ⟨t, q, m, table, settled, reached, idle, unobserved, ?_, ?_⟩
  · intro down right hdown hright y x hy hx
    exact contains_of_settled table sizes bounded apart settled hdown hright hy hx
  · intro c i slot
    obtain ⟨y, x, rfl, hy, hx⟩ := g.exists_of_mem_plane sizes (g.mem_of_slot slot)
    obtain ⟨j, a, slot', _, holds⟩ := contains_of_settled table sizes bounded apart settled
      (show 0 + h ≤ s.height by omega) (show 0 + w ≤ s.width by omega) hy hx
    cases slot.symm.trans slot'
    exact Possibilities.isEmpty_eq_false_of_contains holds

-- The grid fits over the stripes at their first column and at their second one.
theorem settle_keeps_windows_stripes :
    squareGrid.shape.sizes = [2, 2] ∧ 2 ≤ stripes.height ∧ 2 ≤ stripes.width ∧
      ∃ t q, stripes.table = .ok t ∧
        (t.engine (fun _ _ x => (.ok 0, x)) (fun _ x => (0, x)) squareGrid.space).settle
          (Vector.replicate 4 stripes.anyTile) () = .finished q ∧
        (q.cells.get 0).contains 1 = true ∧ (q.cells.get 0).contains 2 = true := by
  have tall : 2 ≤ stripes.height := by decide
  have wide : 2 ≤ stripes.width := by decide
  obtain ⟨t, q, _, table, settled, _, _, _, kept, _⟩ := settle_keeps_windows stripes squareGrid
    (h := 2) (w := 2) rfl tall wide rfl (by unfold Function.Injective; decide)
    (fun _ _ x => (.ok 0, x)) (fun _ x => (0, x)) ()
  have corner : squareGrid.space.slot [((0 : Nat) : Int), ((0 : Nat) : Int)] = .ok 0 := rfl
  obtain ⟨i, a, slot, tile, one⟩ := kept 0 0 (by decide) (by decide) 0 0 (by decide) (by decide)
  cases corner.symm.trans slot
  cases (show stripes.tile? 0 0 = some 1 from rfl).symm.trans tile
  obtain ⟨i, a, slot, tile, two⟩ := kept 0 1 (by decide) (by decide) 0 0 (by decide) (by decide)
  cases corner.symm.trans slot
  cases (show stripes.tile? 0 1 = some 2 from rfl).symm.trans tile
  exact ⟨rfl, tall, wide, t, q, table, settled, one, two⟩

end CellCollapse.Sample
