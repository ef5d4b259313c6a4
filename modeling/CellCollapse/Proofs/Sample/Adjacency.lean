import CellCollapse.Proofs.Grid.NestedArray
import CellCollapse.Proofs.Rule.Symmetric
import CellCollapse.Proofs.Sample.Learner

set_option autoImplicit false

/-!
# What a sample teaches

The table of a sample permits two tiles side by side exactly where the sample has them side by side
(`Sample.permits_table`), so it says the same from both ends. A table can be made of every sample,
and its weights are the counts of the tiles.
-/
namespace CellCollapse

namespace Sample

variable {α : Type} [BEq α] [EquivBEq α]

theorem mem_flatten_of_mem_tiles {s : Sample α} {a : α} (h : a ∈ s.tiles) :
    a ∈ s.rows.flatten := by
  rw [tiles_eq] at h
  exact Possibilities.mem_of_mem_ofList h

theorem toList_anyTile (s : Sample α) : s.anyTile.toList = s.tiles :=
  Possibilities.toList_ofList s.tiles_distinct

theorem known_of_mem_tiles {s : Sample α} {t : α} (h : t ∈ s.tiles) :
    s.rows.flatten.any (· == t) = true :=
  List.any_eq_true.2 ⟨t, mem_flatten_of_mem_tiles h, BEq.rfl⟩

theorem contains_anyTile (s : Sample α) (v : α) :
    s.anyTile.contains v = s.rows.flatten.any (· == v) := by
  rw [anyTile, Possibilities.contains_ofList, any_tiles]

theorem any_beside (s : Sample α) (t : α) (d : Direction) (b : α) :
    (s.beside t d).any (· == b) = true ↔ s.Shows d t b := by
  rw [List.any_eq_true]
  constructor
  · rintro ⟨u, hu, hub⟩
    obtain ⟨_, x, y, adjoins, hx, hy⟩ := mem_beside.1 hu
    exact ⟨x, y, adjoins, hx, BEq.trans hy hub⟩
  · rintro ⟨x, y, adjoins, hx, hy⟩
    -- The tile that stands for `y` in the list of tiles may be an equal one.
    have present : s.tiles.any (· == y) = true := by
      rw [any_tiles, List.any_eq_true]
      exact ⟨y, (mem_flatten_of_adjoins adjoins).2, BEq.rfl⟩
    obtain ⟨u, hu, huy⟩ := List.any_eq_true.1 present
    exact ⟨u, mem_beside.2 ⟨hu, x, y, adjoins, hx, BEq.symm huy⟩, BEq.trans huy hy⟩

theorem pairs_lessons (s : Sample α) : (Assoc.ofList s.lessons).pairs = s.lessons :=
  Assoc.pairs_ofList (List.pairwise_map.2 s.tiles_distinct)

theorem pairs_weights (s : Sample α) : (Assoc.ofList s.weights).pairs = s.weights :=
  Assoc.pairs_ofList (List.pairwise_map.2 s.tiles_distinct)

omit [EquivBEq α] in
theorem count_bounds {s : Sample α} {t : α} (h : s.rows.flatten.any (· == t) = true) :
    0 < s.count t ∧ s.count t ≤ s.height * s.width := by
  refine ⟨List.countP_pos_iff.2 (List.any_eq_true.1 h), ?_⟩
  rw [height, ← length_flatten_of_width s.rectangular]
  exact List.countP_le_length

/-- A tile of the sample is found in a list of entries for all tiles. -/
theorem find?_tiles {β : Type} {s : Sample α} {v : α} (h : s.rows.flatten.any (· == v) = true)
    (f : α → α × β) (key : ∀ t, (f t).1 = t) :
    ∃ t ∈ s.tiles, (t == v) = true ∧ (s.tiles.map f).find? (fun p => p.1 == v) = some (f t) := by
  rw [← any_tiles, List.any_eq_true, ← List.find?_isSome, Option.isSome_iff_exists] at h
  obtain ⟨t, ht⟩ := h
  have equal : (t == v) = true := List.find?_some (p := fun t => t == v) ht
  refine ⟨t, List.mem_of_find?_eq_some ht, equal, ?_⟩
  have same : ((fun p : α × β => p.1 == v) ∘ f) = fun t => t == v := by
    funext t
    rw [Function.comp, key]
  rw [List.find?_map, same, ht, Option.map_some]

theorem readWeight_weights {s : Sample α} {v : α} (h : s.rows.flatten.any (· == v) = true) :
    Table.readWeight (.ofList s.weights) v = .ok (.ofInt (s.count v)) := by
  obtain ⟨t, _, same, found⟩ := find?_tiles h
    (fun t => (t, Value.ofBinary (.ofInt (s.count t)))) fun _ => rfl
  rw [Table.readWeight, Assoc.get?, pairs_weights, weights, found, ← s.count_congr same]
  rfl

variable [AsValue α]

theorem table_exists (s : Sample α) : ∃ t, s.table = .ok t := by
  rw [table_eq]
  apply Table.make_exists
  · intro p hp
    rw [pairs_lessons] at hp
    obtain ⟨t, _, rfl⟩ := List.mem_map.1 hp
    rw [List.length_map, List.length_map]
  · intro v hv
    rw [Assoc.keys, pairs_weights] at hv
    obtain ⟨p, hp, rfl⟩ := List.mem_map.1 hv
    obtain ⟨t, ht, rfl⟩ := List.mem_map.1 hp
    rw [Assoc.contains, pairs_lessons, List.any_eq_true]
    exact ⟨_, List.mem_map_of_mem ht, BEq.rfl⟩
  · intro p hp
    rw [pairs_lessons] at hp
    obtain ⟨t, ht, rfl⟩ := List.mem_map.1 hp
    have known := known_of_mem_tiles ht
    exact ⟨_, readWeight_weights known, Binary64.isPositive_ofInt (count_bounds known).1⟩

variable {s : Sample α} {t : Table α Delta}

theorem entries_table (h : s.table = .ok t) :
    t.offsets = Direction.all.map Direction.vector ∧
      weighEntries (Table.readWeight (.ofList s.weights)) s.lessons = .ok t.entries := by
  rw [table_eq] at h
  obtain ⟨offsets, weighed⟩ := Table.make_entries h
  rw [pairs_lessons] at weighed
  exact ⟨offsets, weighed⟩

theorem offset_table (h : s.table = .ok t) (d : Direction) :
    t.offsets[d.number]? = some d.vector := by
  rw [(entries_table h).1, List.getElem?_map, d.getElem?_all, Option.map_some]

/-- What the table knows of a tile: its neighbors in each direction, and how often it occurs. -/
theorem entry_table (h : s.table = .ok t) {v : α} (known : s.rows.flatten.any (· == v) = true) :
    ∃ e, t.entry? v = some e ∧ e.allowed = Direction.all.map (s.beside v) ∧
      e.weight = .ofInt (s.count v) := by
  obtain ⟨_, weighed⟩ := entries_table h
  obtain ⟨u, hu, same, found⟩ := find?_tiles known
    (fun t => (t, Direction.all.map (s.beside t))) fun _ => rfl
  change s.lessons.find? _ = _ at found
  rw [← weighEntries_rows weighed, List.find?_map, Option.map_eq_some_iff] at found
  obtain ⟨e, entry, heq⟩ := found
  obtain ⟨rfl, allowed⟩ := Prod.mk.inj heq
  have weight := weighEntries_weight weighed e (List.mem_of_find?_eq_some entry)
  rw [readWeight_weights (known_of_mem_tiles hu), s.count_congr same] at weight
  refine ⟨e, entry, ?_, (Except.ok.inj weight).symm⟩
  rw [allowed]
  exact List.map_congr_left fun d _ => s.beside_congr same d

theorem entry?_table_eq_none (h : s.table = .ok t) {v : α}
    (unknown : ¬ s.rows.flatten.any (· == v) = true) : t.entry? v = none := by
  have rows := weighEntries_rows (entries_table h).2
  rw [Table.entry?, List.find?_eq_none]
  intro e he same
  have lesson : (e.value, e.allowed) ∈ s.lessons := by
    rw [← rows]
    exact List.mem_map_of_mem he
  obtain ⟨u, hu, heq⟩ := List.mem_map.1 lesson
  obtain ⟨rfl, _⟩ := Prod.mk.inj heq
  exact unknown (List.any_eq_true.2 ⟨e.value, mem_flatten_of_mem_tiles hu, same⟩)

/-- The table permits what the sample shows, and nothing else. -/
theorem permits_table (h : s.table = .ok t) {k : Nat} {d : Direction}
    (hk : Direction.all[k]? = some d) (a b : α) :
    t.permits a k b = true ↔ s.Shows d a b := by
  by_cases known : s.rows.flatten.any (· == a) = true
  · obtain ⟨e, entry, allowed, _⟩ := entry_table h known
    have row : e.allowed.getD k [] = s.beside a d := by
      rw [allowed, List.getD_eq_getElem?_getD, List.getElem?_map, hk]
      rfl
    simp only [Table.permits, entry, row]
    exact s.any_beside a d b
  · -- A value that is no tile has no row, and stands nowhere in the sample.
    simp only [Table.permits, entry?_table_eq_none h known]
    constructor
    · intro permitted
      cases permitted
    · rintro ⟨x, _, adjoins, same, _⟩
      exact absurd (List.any_eq_true.2 ⟨x, (mem_flatten_of_adjoins adjoins).1, same⟩) known

theorem mirrored_table (h : s.table = .ok t) : t.Mirrored := by
  intro k l D hk hl a b
  rw [(entries_table h).1, List.getElem?_map, Option.map_eq_some_iff] at hk hl
  obtain ⟨d, hd, rfl⟩ := hk
  obtain ⟨e, he, opposite⟩ := hl
  obtain rfl : e = d.reverse := Direction.eq_of_vector_eq (opposite.trans d.vector_reverse.symm)
  rw [Bool.eq_iff_iff, permits_table h hd, permits_table h he, shows_reverse]

theorem weightOr_table (h : s.table = .ok t) {v : α} (known : s.rows.flatten.any (· == v) = true) :
    ∃ m : Nat, 0 < m ∧ m ≤ s.height * s.width ∧ t.weightOr v = .ofInt m := by
  obtain ⟨e, entry, _, weight⟩ := entry_table h known
  obtain ⟨positive, bound⟩ := count_bounds known
  refine ⟨s.count v, positive, bound, ?_⟩
  rw [Table.weightOr, entry]
  exact weight

end Sample

end CellCollapse
