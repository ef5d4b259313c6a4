import CellCollapse.Proofs.Rule.Failure
import CellCollapse.Proofs.Sample.Adjacency

set_option autoImplicit false

/-!
# Collapsing by a sample

A grid that is collapsed by the rule of a sample shows nothing that the sample does not show: two
tiles that end up side by side stand so in the sample, in the same order and direction. The collapse
never fails, as long as choices among tiles weighed by their counts do not. It may leave cells
empty.
-/
namespace CellCollapse

/-- A choice that answers whenever the weights are counts up to a bound. -/
def Chooser.AnswersCounts {ρ : Type} (choose : Chooser ρ) (bound : Nat) : Prop :=
  ∀ w ws x, (∀ v ∈ w :: ws, ∃ m : Nat, 0 < m ∧ m ≤ bound ∧ v = .ofInt m) →
    ∃ i y, choose w ws x = (.ok i, y)

namespace Grid

variable {n : Nat} (g : Grid (Fin n))

theorem offset_plane (h w : Nat) (p q y x : Int) :
    CellCollapse.offset false [h, w] [p, q] [y, x] =
      if (0 ≤ p + y ∧ p + y < h) ∧ 0 ≤ q + x ∧ q + x < w then some [p + y, q + x] else none := by
  simp only [CellCollapse.offset, Bool.false_eq_true, if_false]
  by_cases row : 0 ≤ p + y ∧ p + y < h
  · by_cases column : 0 ≤ q + x ∧ q + x < w
    · simp only [row, column, and_self, if_true, Option.map_some]
    · simp only [row, column, and_self, and_false, if_true, if_false, Option.map_none]
  · simp only [row, false_and, if_false]

theorem offset_of_mem (plane : g.axes = 2) (bounded : g.periodic = false) {p q y x : Int}
    (mem : [p + y, q + x] ∈ g.coordinates) : g.offset [p, q] [y, x] = some [p + y, q + x] := by
  obtain ⟨h, w, sizes⟩ := List.length_eq_two.1 plane
  rw [mem_coordinates_iff, sizes] at mem
  rw [offset, bounded, sizes, offset_plane, if_pos]
  simpa [Inside] using mem

theorem exists_of_mem_plane {h w : Nat} (sizes : g.shape.sizes = [h, w]) {c : Coord}
    (mem : c ∈ g.coordinates) : ∃ y x : Nat, c = [(y : Int), (x : Int)] ∧ y < h ∧ x < w := by
  rw [mem_coordinates_iff, sizes] at mem
  cases mem with
  | @cons _ p _ _ hp rest =>
    cases rest with
    | @cons _ q _ _ hq rest =>
      cases rest
      refine ⟨p.toNat, q.toNat, ?_, by omega, by omega⟩
      rw [Int.toNat_of_nonneg hp.1, Int.toNat_of_nonneg hq.1]

/-- Without wrapping round, the step between two cells is read off their coordinates. -/
theorem vector_of_offset (plane : g.axes = 2) (bounded : g.periodic = false) {p q y x : Int}
    {d : Direction} (next : g.offset [p, q] d.vector = some [y, x]) :
    d.vector = [y - p, x - q] := by
  obtain ⟨h, w, sizes⟩ := List.length_eq_two.1 plane
  cases d with
  | _ =>
    simp only [offset, bounded, sizes, Direction.vector, offset_plane] at next
    split at next
    · simp only [Option.some.injEq, List.cons.injEq, and_true] at next
      simp only [Direction.vector, List.cons.injEq, and_true]
      omega
    · cases next

theorem offset_ne_self (plane : g.axes = 2) (bounded : g.periodic = false) {c : Coord}
    (mem : c ∈ g.coordinates) (d : Direction) : g.offset c d.vector ≠ some c := by
  obtain ⟨h, w, sizes⟩ := List.length_eq_two.1 plane
  obtain ⟨y, x, rfl, _, _⟩ := g.exists_of_mem_plane sizes mem
  intro same
  have step := g.vector_of_offset plane bounded same
  rw [Int.sub_self, Int.sub_self] at step
  cases d <;> cases step

end Grid

namespace Sample

variable {α ρ : Type} [BEq α] [EquivBEq α] [AsValue α] {n : Nat} {s : Sample α} {t : Table α Delta}
  {g : Grid (Fin n)} {choose : Chooser ρ} {pick : TieBreak ρ} {context : ρ}
  {r : Run (Possibilities α) Coord ρ n}

/-- Two tiles of the sample, the second some rows below and some columns to the right of the
first. -/
def Occurs (s : Sample α) (down right : Nat) (v w : α) : Prop :=
  ∃ y x a b, s.tile? y x = some a ∧ s.tile? (y + down) (x + right) = some b ∧
    (a == v) = true ∧ (b == w) = true

theorem mem_offsets (h : s.table = .ok t) {D : Delta} :
    D ∈ t.offsets ↔ ∃ d, Direction.vector d = D := by
  rw [(entries_table h).1, List.mem_map]
  constructor
  · rintro ⟨d, _, rfl⟩
    exact ⟨d, rfl⟩
  · rintro ⟨d, rfl⟩
    exact ⟨d, by cases d <;> decide, rfl⟩

theorem offsets_matching (h : s.table = .ok t) (plane : g.axes = 2) :
    ∀ D ∈ t.offsets, D.length = g.axes := by
  intro D hD
  obtain ⟨d, rfl⟩ := (mem_offsets h).1 hD
  rw [plane]
  cases d <;> rfl

theorem offsets_closed (h : s.table = .ok t) : ∀ D ∈ t.offsets, negate D ∈ t.offsets := by
  intro D hD
  obtain ⟨d, rfl⟩ := (mem_offsets h).1 hD
  exact (mem_offsets h).2 ⟨d.reverse, d.vector_reverse⟩

omit [BEq α] [EquivBEq α] [AsValue α] in
theorem get_replicate (a : α) (i : Fin n) : (Vector.replicate n a).get i = a :=
  Vector.getElem_replicate i.isLt

theorem collapse_finishes (h : s.table = .ok t) (plane : g.axes = 2)
    (answers : choose.AnswersCounts (s.height * s.width)) (pick : TieBreak ρ) (context : ρ) :
    ∃ r, (t.engine choose pick g.space).collapse (Vector.replicate n s.anyTile) context =
      .finished r := by
  refine (Table.collapse_finished_or_refused (g.space_lawful t.offsets)
    (g.space_sound (offsets_matching h plane)) choose pick _ context).resolve_right ?_
  rintro ⟨q, f, _, m, p, _, _, @⟨c, i, call, v, vs, y, _, _, _, held, refused⟩⟩
  have counted : ∀ w ∈ t.weightOr v :: vs.map t.weightOr,
      ∃ m : Nat, 0 < m ∧ m ≤ s.height * s.width ∧ w = .ofInt m := by
    intro w hw
    obtain ⟨u, hu, rfl⟩ := List.mem_map.1 (show w ∈ (v :: vs).map t.weightOr from hw)
    have known := held u hu
    rw [get_replicate, contains_anyTile] at known
    exact weightOr_table h known
  obtain ⟨j, z, answered⟩ := answers _ _ _ counted
  cases answered.symm.trans refused

section Finished

variable (returned : (t.engine choose pick g.space).collapse (Vector.replicate n s.anyTile)
  context = .finished r)
include returned

/-- A cell that is not empty at the end holds a tile, as every cell did at the start. -/
theorem tile_of_finished {c : Coord} {i : Fin n} (slot : g.space.slot c = .ok i)
    (filled : (r.cells.get i).isEmpty = false) :
    ∃ v, (r.cells.get i).value? = some v ∧ ∃ y x a, s.tile? y x = some a ∧ (a == v) = true := by
  have lawful := g.space_lawful t.offsets
  obtain ⟨k, hk⟩ := Engine.exists_collapse_eq_moment (t.engine choose pick g.space)
    (Vector.replicate n s.anyTile) context
  rw [returned] at hk
  obtain ⟨decided, m, q, hq, _, hcells, _⟩ :=
    Engine.moment_finished lawful.toListed Possibilities.entropy_nonneg hk.symm
  obtain ⟨j, hj, zero⟩ := decided c (g.mem_of_slot slot)
  cases slot.symm.trans hj
  obtain ⟨v, hv⟩ := Possibilities.exists_value? (by simpa using zero) filled
  refine ⟨v, hv, ?_⟩
  have held : (q.cells.get i).contains v = true := by
    rw [hcells]
    apply Possibilities.contains_of_mem
    rw [((r.cells.get i).value?_eq_some_iff v).1 hv]
    exact List.mem_singleton_self v
  have before := Table.contains_before hq i v held
  rw [get_replicate, contains_anyTile, List.any_eq_true] at before
  obtain ⟨a, ha, same⟩ := before
  obtain ⟨y, x, hyx⟩ := exists_tile?_of_mem ha
  exact ⟨y, x, a, hyx, same⟩

variable (h : s.table = .ok t) (varied : 2 ≤ s.tiles.length) (plane : g.axes = 2)
  (bounded : g.periodic = false) (apart : Function.Injective g.cells.get)
include h varied plane bounded apart

/-- Two neighbors that are not empty at the end hold a pair of the sample. -/
theorem pair_of_finished {d : Direction} {c c' : Coord} (next : g.offset c d.vector = some c')
    {i j : Fin n} (hi : g.space.slot c = .ok i) (hj : g.space.slot c' = .ok j)
    (filled : (r.cells.get i).isEmpty = false) (filled' : (r.cells.get j).isEmpty = false) :
    ∃ v w, (r.cells.get i).value? = some v ∧ (r.cells.get j).value? = some w ∧
      s.Shows d v w := by
  have matching := offsets_matching (g := g) h plane
  have mem := g.mem_of_slot hi
  have offset := offset_table h d
  have loopless : g.space.Loopless t.offsets := by
    apply g.space_loopless matching
    intro b hb D hD
    obtain ⟨e, rfl⟩ := (mem_offsets h).1 hD
    exact g.offset_ne_self plane bounded hb e
  have undecided : ∀ l, ((Vector.replicate n s.anyTile).get l).entropy ≠ 0 := by
    intro l
    rw [get_replicate, Possibilities.entropy, Possibilities.size, toList_anyTile]
    omega
  have neighbor : g.space.neighbor? t.offsets c d.number = some c' :=
    (g.neighbor?_eq_some_iff matching c c' d.number).2 ⟨d.vector, offset, next⟩
  obtain ⟨v, w, hv, hw, permits⟩ := Table.permits_of_finished (g.space_lawful t.offsets)
    (g.space_apart apart) (g.space_balanced matching (offsets_closed h) (mirrored_table h)) loopless
    returned mem neighbor hi hj filled filled' fun both => undecided i both.1
  exact ⟨v, w, hv, hw, (permits_table h d.getElem?_all v w).1 permits⟩

/-- The same of two cells with a step down or to the right between them. -/
theorem occurs_of_finished {d : Direction} {down right : Nat}
    (step : d.vector = [(down : Int), (right : Int)]) {p q : Int} {i j : Fin n}
    (hi : g.space.slot [p, q] = .ok i) (hj : g.space.slot [p + down, q + right] = .ok j)
    (filled : (r.cells.get i).isEmpty = false) (filled' : (r.cells.get j).isEmpty = false) :
    ∃ v w, (r.cells.get i).value? = some v ∧ (r.cells.get j).value? = some w ∧
      s.Occurs down right v w := by
  have next : g.offset [p, q] d.vector = some [p + down, q + right] := by
    rw [step]
    exact g.offset_of_mem plane bounded (g.mem_of_slot hj)
  obtain ⟨v, w, hv, hw, a, b, adjoins, hav, hbw⟩ :=
    pair_of_finished returned h varied plane bounded apart next hi hj filled filled'
  obtain ⟨y, x, hfirst, hsecond⟩ := adjoins.ahead step
  exact ⟨v, w, hv, hw, y, x, a, b, hfirst, hsecond, hav, hbw⟩

end Finished

/-- Whatever the random source does, a grid collapsed by a sample of two or more tiles shows only
what the sample shows. -/
theorem collapse_reproduces (s : Sample α) (varied : 2 ≤ s.tiles.length) (g : Grid (Fin n))
    (plane : g.axes = 2) (bounded : g.periodic = false) (apart : Function.Injective g.cells.get)
    (choose : Chooser ρ) (answers : choose.AnswersCounts (s.height * s.width)) (pick : TieBreak ρ)
    (context : ρ) :
    ∃ t r, s.table = .ok t ∧
      (t.engine choose pick g.space).collapse (Vector.replicate n s.anyTile) context =
        .finished r ∧
      (∀ c i, g.space.slot c = .ok i → (r.cells.get i).isEmpty = false →
        ∃ v, (r.cells.get i).value? = some v ∧
          ∃ y x a, s.tile? y x = some a ∧ (a == v) = true) ∧
      (∀ p q i j, g.space.slot [p, q] = .ok i → g.space.slot [p, q + 1] = .ok j →
        (r.cells.get i).isEmpty = false → (r.cells.get j).isEmpty = false →
          ∃ v w, (r.cells.get i).value? = some v ∧ (r.cells.get j).value? = some w ∧
            s.Occurs 0 1 v w) ∧
      ∀ p q i j, g.space.slot [p, q] = .ok i → g.space.slot [p + 1, q] = .ok j →
        (r.cells.get i).isEmpty = false → (r.cells.get j).isEmpty = false →
          ∃ v w, (r.cells.get i).value? = some v ∧ (r.cells.get j).value? = some w ∧
            s.Occurs 1 0 v w := by
  obtain ⟨t, ht⟩ := s.table_exists
  obtain ⟨r, returned⟩ := collapse_finishes (g := g) ht plane answers pick context
  refine ⟨t, r, ht, returned, fun c i => tile_of_finished returned, ?_, ?_⟩
  · intro p q i j hi hj
    exact occurs_of_finished returned ht varied plane bounded apart (d := .right) rfl hi
      (by simpa using hj)
  · intro p q i j hi hj
    exact occurs_of_finished returned ht varied plane bounded apart (d := .down) rfl hi
      (by simpa using hj)

/-- Columns of ones and twos in turn. -/
def stripes : Sample Int := ⟨[[1, 2, 1], [1, 2, 1]], 3, by decide, by decide, by decide⟩

def squareGrid : Grid (Fin 4) := ⟨⟨[2, 2], by decide, by decide⟩, false, .ofFn fun i => i⟩

-- The first cell is observed to be a one. A two stands beside it, and a one below it.
theorem collapse_reproduces_stripes :
    2 ≤ stripes.tiles.length ∧ ∃ t r, stripes.table = .ok t ∧
      (t.engine (fun _ _ x => (.ok 0, x)) (fun _ x => (0, x)) squareGrid.space).collapse
        (Vector.replicate 4 stripes.anyTile) () = .finished r ∧
      (r.cells.get 0).value? = some 1 ∧ (r.cells.get 1).value? = some 2 ∧
      (r.cells.get 2).value? = some 1 ∧ stripes.Occurs 0 1 1 2 ∧ stripes.Occurs 1 0 1 1 := by
  have varied : 2 ≤ stripes.tiles.length := by decide
  have answers : Chooser.AnswersCounts (fun _ _ x => (.ok 0, x) : Chooser Unit)
      (stripes.height * stripes.width) := fun _ _ x _ => ⟨0, x, rfl⟩
  obtain ⟨t, r, built, returned, _, horizontal, vertical⟩ := collapse_reproduces stripes varied
    squareGrid rfl rfl (by unfold Function.Injective; decide) (fun _ _ x => (.ok 0, x)) answers
    (fun _ x => (0, x)) ()
  obtain ⟨t', r', built', returned', corner, beside, below⟩ : ∃ t r, stripes.table = .ok t ∧
      (t.engine (fun _ _ x => (.ok 0, x)) (fun _ x => (0, x)) squareGrid.space).collapse
        (Vector.replicate 4 stripes.anyTile) () = .finished r ∧
      (r.cells.get 0).value? = some 1 ∧ (r.cells.get 1).value? = some 2 ∧
      (r.cells.get 2).value? = some 1 := by
    with_unfolding_all exact ⟨_, _, rfl, rfl, rfl, rfl, rfl⟩
  cases Except.ok.inj (built.symm.trans built')
  cases Outcome.finished.inj (returned.symm.trans returned')
  have filled : ∀ {i : Fin 4} {v : Int}, (r.cells.get i).value? = some v →
      (r.cells.get i).isEmpty = false := by
    intro i v hv
    rw [Possibilities.isEmpty, ((r.cells.get i).value?_eq_some_iff v).1 hv]
    rfl
  obtain ⟨v, w, hv, hw, across⟩ := horizontal 0 0 0 1 rfl rfl (filled corner) (filled beside)
  cases corner.symm.trans hv
  cases beside.symm.trans hw
  obtain ⟨v, w, hv, hw, downwards⟩ := vertical 0 0 0 2 rfl rfl (filled corner) (filled below)
  cases corner.symm.trans hv
  cases below.symm.trans hw
  exact ⟨varied, t, r, built, returned, corner, beside, below, across, downwards⟩

end Sample

end CellCollapse
