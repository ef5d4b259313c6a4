import CellCollapse.Proofs.Sample.Adjacency
import Mathlib

set_option autoImplicit false

/-!
# A sample teaches its own adjacency

Row by row, the places of a sample hold its tiles one after the other (`Sample.map_tile?_places`).
So the tiles are listed by their first place, a tile occurs as often as there are places that hold
it, and two tiles are compatible in a direction exactly if a step in that direction leads from one
to the other. The table of the sample repeats all that, and says the same from both ends.
-/
namespace CellCollapse

/-- The values of a set built from a list are in the order in which the list first has them. -/
theorem Possibilities.pairwise_ofList {α : Type} [BEq α] [LawfulBEq α] (vs : List α) :
    (Possibilities.ofList vs).toList.Pairwise fun a b => ∃ l, l <+: vs ∧ a ∈ l ∧ b ∉ l := by
  induction vs using List.reverseRecOn with
  | nil => exact .nil
  | append_singleton vs v ih =>
    have kept : (ofList vs).toList.Pairwise fun a b => ∃ l, l <+: vs ++ [v] ∧ a ∈ l ∧ b ∉ l := by
      refine ih.imp ?_
      rintro a b ⟨l, hl, ha, hb⟩
      exact ⟨l, hl.trans (vs.prefix_append [v]), ha, hb⟩
    rw [ofList, List.foldl_append, List.foldl_cons, List.foldl_nil, toList_insert]
    split
    · exact kept
    · rename_i absent
      change ¬ (ofList vs).contains v = true at absent
      rw [contains_ofList, List.any_beq', List.elem_iff] at absent
      refine List.pairwise_append.2 ⟨kept, List.pairwise_singleton _ _, ?_⟩
      -- All that the set has so far is in `vs`, and the new value is not.
      intro a ha b hb
      rw [List.mem_singleton.1 hb]
      exact ⟨vs, vs.prefix_append [v], mem_of_mem_ofList ha, absent⟩

namespace Sample

variable {α : Type} (s : Sample α)

theorem getElem?_flatten_of_width {w : Nat} {rows : List (List α)}
    (rectangular : ∀ row ∈ rows, row.length = w) (y : Nat) {x : Nat} (hx : x < w) :
    rows.flatten[y * w + x]? = rows[y]?.bind (·[x]?) := by
  induction rows generalizing y with
  | nil => rfl
  | cons row rows ih =>
    have hrow : row.length = w := rectangular row List.mem_cons_self
    have rest := ih fun r hr => rectangular r (List.mem_cons_of_mem _ hr)
    cases y with
    | zero =>
      rw [List.flatten_cons, Nat.zero_mul, Nat.zero_add, List.getElem?_append_left (hrow ▸ hx)]
      rfl
    | succ y =>
      have hskip : (y + 1) * w + x - row.length = y * w + x := by
        rw [hrow, Nat.succ_mul]
        omega
      have hpast : row.length ≤ (y + 1) * w + x := by
        rw [hrow, Nat.succ_mul]
        omega
      rw [List.flatten_cons, List.getElem?_append_right hpast, hskip, rest y,
        List.getElem?_cons_succ]

/-- The places of a rectangle, row by row. -/
def places : List (Nat × Nat) := List.range s.height ×ˢ List.range s.width

theorem map_getElem?_range {β : Type} (l : List β) :
    (List.range l.length).map (fun i => l[i]?) = l.map some := by
  apply List.ext_getElem
  · rw [List.length_map, List.length_map, List.length_range]
  · intro i hi hi'
    rw [List.length_map] at hi'
    rw [List.getElem_map, List.getElem_map, List.getElem_range, List.getElem?_eq_getElem hi']

theorem map_tile?_places :
    s.places.map (fun p => s.tile? p.1 p.2) = s.rows.flatten.map some := by
  have row : ∀ r ∈ s.rows, (List.range s.width).map (fun x => r[x]?) = r.map some := by
    intro r hr
    rw [← s.rectangular r hr]
    exact map_getElem?_range r
  calc s.places.map (fun p => s.tile? p.1 p.2)
      = (List.range s.height).flatMap fun y => (List.range s.width).map (s.tile? y) := by
        change ((List.range s.height).flatMap fun y => (List.range s.width).map (y, ·)).map _ = _
        rw [List.map_flatMap]
        simp only [List.map_map, Function.comp_def]
    _ = ((List.range s.height).map fun y => s.rows[y]?).flatMap fun r =>
          (List.range s.width).map fun x => r.bind (·[x]?) := by
        rw [List.flatMap_map]
        rfl
    _ = s.rows.flatMap fun r => (List.range s.width).map fun x => r[x]? := by
        rw [height, map_getElem?_range, List.flatMap_map]
        rfl
    _ = s.rows.flatten.map some := by
        rw [List.flatMap_def, List.map_congr_left row, List.map_flatten]

theorem before_of_lt {w y x y' x' : Nat} (hx' : x' < w) (earlier : y * w + x < y' * w + x') :
    y < y' ∨ y = y' ∧ x < x' := by
  rcases Nat.lt_trichotomy y y' with above | rfl | below
  · exact .inl above
  · exact .inr ⟨rfl, by omega⟩
  · have hrow := Nat.mul_le_mul_right w (Nat.succ_le_of_lt below)
    rw [Nat.succ_mul] at hrow
    omega

/-- A tile is there before another one: row by row, some place of it comes before all places of the
other. -/
def ShowsFirst (a b : α) : Prop :=
  ∃ y x, s.tile? y x = some a ∧
    ∀ y' x', s.tile? y' x' = some b → y < y' ∨ y = y' ∧ x < x'

theorem showsFirst_of_prefix {s : Sample α} {l : List α} (hl : l <+: s.rows.flatten) {a b : α}
    (ha : a ∈ l) (hb : b ∉ l) : s.ShowsFirst a b := by
  obtain ⟨rest, hrest⟩ := hl
  have early : ∀ k < l.length, s.rows.flatten[k]? = l[k]? := by
    intro k hk
    rw [← hrest, List.getElem?_append_left hk]
  obtain ⟨k, hk, rfl⟩ := List.mem_iff_getElem.1 ha
  have hx : k % s.width < s.width := Nat.mod_lt k s.positive
  have hplace : k / s.width * s.width + k % s.width = k := Nat.div_add_mod' k s.width
  refine ⟨k / s.width, k % s.width, ?_, ?_⟩
  · rw [tile?, ← getElem?_flatten_of_width s.rectangular _ hx, hplace, early k hk,
      List.getElem?_eq_getElem hk]
  · intro y' x' hb'
    obtain ⟨_, hx'⟩ := tile?_lt hb'
    rw [tile?, ← getElem?_flatten_of_width s.rectangular _ hx'] at hb'
    have later : l.length ≤ y' * s.width + x' := by
      apply Nat.le_of_not_lt
      intro hlt
      rw [early _ hlt] at hb'
      exact hb (List.mem_of_getElem? hb')
    refine before_of_lt hx' ?_
    rw [hplace]
    exact Nat.lt_of_lt_of_le hk later

variable [DecidableEq α]

/-- The number of places that hold a tile. -/
def occurrences (a : α) : Nat := s.places.countP fun p => s.tile? p.1 p.2 == some a

theorem count_eq_occurrences (a : α) : s.count a = s.occurrences a := by
  calc s.count a
      = (s.rows.flatten.map some).countP (· == some a) := by
        rw [List.countP_map]
        rfl
    _ = s.occurrences a := by
        rw [← map_tile?_places, List.countP_map]
        rfl

theorem any_beq_iff (l : List α) (a : α) : l.any (· == a) = true ↔ a ∈ l := by
  rw [List.any_beq', List.contains_iff_mem]

theorem mem_tiles_iff_mem_flatten (a : α) : a ∈ s.tiles ↔ a ∈ s.rows.flatten := by
  rw [← any_beq_iff, any_tiles, any_beq_iff]

theorem mem_tiles_iff (a : α) : a ∈ s.tiles ↔ ∃ y x, s.tile? y x = some a := by
  rw [mem_tiles_iff_mem_flatten]
  constructor
  · exact exists_tile?_of_mem
  · rintro ⟨y, x, h⟩
    exact mem_flatten_of_tile? h

theorem pairwise_tiles : s.tiles.Pairwise s.ShowsFirst := by
  rw [tiles_eq]
  refine (Possibilities.pairwise_ofList s.rows.flatten).imp ?_
  rintro a b ⟨l, hl, ha, hb⟩
  exact showsFirst_of_prefix hl ha hb

theorem sum_occurrences : (s.tiles.map s.occurrences).sum = s.height * s.width := by
  have nodup : s.tiles.Nodup := s.tiles_distinct.imp ne_of_beq_false
  have perm : s.tiles.Perm s.rows.flatten.dedup := by
    rw [List.perm_ext_iff_of_nodup nodup (List.nodup_dedup _)]
    intro a
    rw [mem_tiles_iff_mem_flatten, List.mem_dedup]
  calc (s.tiles.map s.occurrences).sum
      = (s.tiles.map fun a => s.rows.flatten.count a).sum := by
        congr 2
        funext a
        exact (s.count_eq_occurrences a).symm
    _ = (s.rows.flatten.dedup.map fun a => s.rows.flatten.count a).sum := (perm.map _).sum_nat
    _ = s.rows.flatten.length := List.sum_map_count_dedup_eq_length _
    _ = s.height * s.width := length_flatten_of_width s.rectangular

theorem mem_beside_iff (d : Direction) (a b : α) : b ∈ s.beside a d ↔ s.Adjoins d a b := by
  rw [← any_beq_iff, any_beside]
  constructor
  · rintro ⟨a', b', adjoins, ha, hb⟩
    cases eq_of_beq ha
    cases eq_of_beq hb
    exact adjoins
  · intro h
    exact ⟨a, b, h, BEq.rfl, BEq.rfl⟩

variable [AsValue α] {s}

theorem frequency_of_mem {a : α} (h : a ∈ s.tiles) : s.frequency a = .ok (s.occurrences a) := by
  rw [frequency_eq (known_of_mem h), count_eq_occurrences]

theorem compatible_of_mem {a : α} (h : a ∈ s.tiles) (d : Direction) :
    s.compatible a d = .ok (s.beside a d) :=
  compatible_eq (known_of_mem h) d

/-- What a sample teaches is what it shows: its tiles in the order in which they first appear, how
many places hold each of them, and which of them stand side by side. A table can always be made of
it, with the same neighbors and frequencies. -/
theorem teaches_what_it_shows (s : Sample α) :
    (∀ a, a ∈ s.tiles ↔ ∃ y x, s.tile? y x = some a) ∧
    s.tiles.Pairwise s.ShowsFirst ∧
    (∀ a ∈ s.tiles, s.frequency a = .ok (s.occurrences a)) ∧
    (s.tiles.map s.occurrences).sum = s.height * s.width ∧
    (∀ a ∈ s.tiles, ∀ b ∈ s.tiles, ∀ d, ∃ near back,
      s.compatible a d = .ok near ∧ s.compatible b d.reverse = .ok back ∧
        (b ∈ near ↔ s.Adjoins d a b) ∧ (b ∈ near ↔ a ∈ back)) ∧
    ∃ t, s.table = .ok t ∧ ∀ a ∈ s.tiles, ∃ e, t.entry? a = some e ∧
      t.weight a = .ok (.ofInt (s.occurrences a)) ∧
      ∀ d, ∃ near, s.compatible a d = .ok near ∧ t.offsets[d.number]? = some d.vector ∧
        e.allowed[d.number]? = some near := by
  refine ⟨s.mem_tiles_iff, s.pairwise_tiles, fun a => frequency_of_mem, s.sum_occurrences, ?_, ?_⟩
  · intro a ha b hb d
    refine ⟨_, _, compatible_of_mem ha d, compatible_of_mem hb d.reverse, s.mem_beside_iff d a b,
      ?_⟩
    rw [mem_beside_iff, mem_beside_iff, adjoins_reverse]
  · obtain ⟨t, ht⟩ := s.table_exists
    refine ⟨t, ht, ?_⟩
    intro a ha
    obtain ⟨e, entry, allowed, weight⟩ := entry_table ht (known_of_mem_tiles ha)
    refine ⟨e, entry, ?_, ?_⟩
    · rw [Table.weight, entry, ← count_eq_occurrences, ← weight]
    · intro d
      refine ⟨_, compatible_of_mem ha d, offset_table ht d, ?_⟩
      rw [allowed, List.getElem?_map, d.getElem?_all, Option.map_some]

/-- A tile on a diagonal, with other tiles beside it. -/
def diagonal : Sample Int := ⟨[[1, 2], [3, 1]], 2, by decide, by decide, by decide⟩

-- The two stands to the right of the first one, so the one stands to the left of the two.
theorem teaches_what_it_shows_diagonal :
    1 ∈ diagonal.tiles ∧ 2 ∈ diagonal.tiles ∧ diagonal.ShowsFirst 1 2 ∧
      diagonal.frequency 1 = .ok 2 ∧ ∃ near back, diagonal.compatible 1 .right = .ok near ∧
        diagonal.compatible 2 .left = .ok back ∧ 2 ∈ near ∧ 1 ∈ back := by
  have one : 1 ∈ diagonal.tiles := by decide
  have two : 2 ∈ diagonal.tiles := by decide
  have steps : diagonal.Adjoins .right 1 2 := ⟨0, 0, 0, 1, by decide, by decide, by decide⟩
  obtain ⟨_, ordered, counted, _, sides, _⟩ := teaches_what_it_shows diagonal
  obtain ⟨near, back, hnear, hback, shown, mirrored⟩ := sides 1 one 2 two .right
  have listed : diagonal.tiles = [1, 2, 3] := by decide
  rw [listed] at ordered
  have first : diagonal.ShowsFirst 1 2 := (List.pairwise_cons.1 ordered).1 2 (by decide)
  exact ⟨one, two, first, counted 1 one, near, back, hnear, hback, shown.2 steps,
    mirrored.1 (shown.2 steps)⟩

end Sample

end CellCollapse
