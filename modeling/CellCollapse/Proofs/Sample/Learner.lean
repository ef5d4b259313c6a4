import CellCollapse.Proofs.Assoc
import CellCollapse.Proofs.Possibilities
import CellCollapse.Proofs.Sample.Places
import CellCollapse.Proofs.Space

set_option autoImplicit false

/-!
# What the scans of a sample learn

The first scan keeps `Tally.Counts`: the tiles seen so far in the order in which they came, and how
often each of them did. The second one keeps `Marks.Records`: the marks are set that a relation
between two tiles and a direction asks for, and no others. A step of the scan adds to that relation
what it sees, from both ends; at the end it is `Sample.Shows` (`Sample.records_marks`). The look-ups
that could fail find their keys, so a sample is always learned (`Sample.learn_eq`).
-/
namespace CellCollapse

variable {α : Type}

theorem mapM_eq_ok_map {ε β γ : Type} {f : β → Except ε γ} {g : β → γ} {xs : List β}
    (answers : ∀ x ∈ xs, f x = .ok (g x)) : xs.mapM f = .ok (xs.map g) := by
  induction xs with
  | nil => rfl
  | cons x xs ih =>
    rw [List.mapM_cons, answers x List.mem_cons_self,
      ih fun y hy => answers y (List.mem_cons_of_mem x hy)]
    rfl

namespace Tally

variable [BEq α]

/-- What a tally says after some tiles were added. -/
structure Counts (t : Tally α) (seen : List α) : Prop where
  tiles : t.tiles = (Possibilities.ofList seen).toList
  keys : t.frequencies.keys = t.tiles
  frequency : ∀ v, (t.frequencies.get? v).getD 0 = seen.countP (· == v)

theorem counts_empty : (empty : Tally α).Counts [] where
  tiles := rfl
  keys := rfl
  frequency := fun _ => rfl

variable [EquivBEq α] {t : Tally α} {seen : List α}

theorem Counts.add (h : t.Counts seen) (tile : α) : (t.add tile).Counts (seen ++ [tile]) := by
  have listed : (Possibilities.ofList (seen ++ [tile])).toList =
      if t.frequencies.contains tile then t.tiles else t.tiles ++ [tile] := by
    rw [Possibilities.ofList, List.foldl_append, List.foldl_cons, List.foldl_nil,
      Possibilities.toList_insert, Assoc.contains_eq_any_keys, h.keys, h.tiles]
    rfl
  have counted : ∀ v, (seen ++ [tile]).countP (· == v) =
      (t.frequencies.get? v).getD 0 + if tile == v then 1 else 0 := by
    intro v
    rw [List.countP_append, List.countP_singleton, h.frequency]
  unfold Tally.add
  split
  · rename_i known
    refine ⟨?_, ?_, ?_⟩
    · rw [listed, if_pos known]
    · exact (Assoc.keys_modify _ _ _).trans h.keys
    · intro v
      rw [counted, Assoc.get?_modify]
      split
      · rename_i same
        rw [Assoc.contains_eq_isSome, Assoc.get?_congr _ same] at known
        obtain ⟨k, hk⟩ := Option.isSome_iff_exists.1 known
        rw [hk]
        rfl
      · rfl
  · rename_i unknown
    refine ⟨?_, ?_, ?_⟩
    · rw [listed, if_neg unknown]
    · rw [Assoc.keys_insert, if_neg unknown, h.keys]
    · intro v
      rw [counted, Assoc.get?_insert]
      split
      · rename_i same
        rw [← Assoc.get?_congr _ same, Assoc.get?_eq_none (Bool.eq_false_iff.2 unknown)]
        rfl
      · rfl

theorem Counts.foldl_add (h : t.Counts seen) (tiles : List α) :
    (tiles.foldl Tally.add t).Counts (seen ++ tiles) := by
  induction tiles generalizing t seen with
  | nil =>
    rw [List.append_nil]
    exact h
  | cons tile tiles ih =>
    rw [List.append_cons]
    exact ih (h.add tile)

end Tally

namespace Marks

variable {count : Nat}

/-- Those marks are set that a relation asks for. -/
def Records (m : Marks count) (P : Fin count → Fin count → Direction → Prop) : Prop :=
  ∀ a b d, m.get a b d = true ↔ P a b d

theorem records_blank : (blank : Marks count).Records fun _ _ _ => False := by
  intro a b d
  simp [blank, get, Vector.get]

theorem get_mark (m : Marks count) (a b : Fin count) (d : Direction) (a' b' : Fin count)
    (d' : Direction) :
    (m.mark a b d).get a' b' d' = true ↔ m.get a' b' d' = true ∨ a' = a ∧ b' = b ∧ d' = d := by
  have inner : ∀ v : Vector Bool 4, (v.set d.number true d.number_lt).get
      ⟨d'.number, d'.number_lt⟩ = if d = d' then true else v.get ⟨d'.number, d'.number_lt⟩ := by
    intro v
    rw [get_set v ⟨d.number, d.number_lt⟩]
    simp only [Fin.mk.injEq, Direction.number_inj]
  rw [mark, get, get_set]
  by_cases ha : a = a'
  · rw [if_pos ha, get_set]
    by_cases hb : b = b'
    · rw [if_pos hb, inner]
      subst ha hb
      by_cases hd : d = d'
      · simp [hd]
      · simp [get, hd, Ne.symm hd]
    · subst ha
      simp [get, hb, Ne.symm hb]
  · simp [get, ha, Ne.symm ha]

variable {m : Marks count} {P : Fin count → Fin count → Direction → Prop}

theorem Records.mark (h : m.Records P) (a b : Fin count) (d : Direction) :
    (m.mark a b d).Records fun a' b' d' => P a' b' d' ∨ a' = a ∧ b' = b ∧ d' = d := by
  intro a' b' d'
  rw [get_mark, h]

theorem Records.congr (h : m.Records P) {Q : Fin count → Fin count → Direction → Prop}
    (same : ∀ a b d, P a b d ↔ Q a b d) : m.Records Q :=
  fun a b d => (h a b d).trans (same a b d)

/-- A loop whose every step adds to the marks leaves what the steps add together. -/
theorem Records.foldlM {ι : Type} {f : Marks count → ι → Except Fault (Marks count)}
    {adds : ι → Fin count → Fin count → Direction → Prop} {xs : List ι} (h : m.Records P)
    (step : ∀ x ∈ xs, ∀ (m : Marks count) P, m.Records P →
      ∃ m', f m x = .ok m' ∧ m'.Records fun a b d => P a b d ∨ adds x a b d) :
    ∃ m', xs.foldlM f m = .ok m' ∧
      m'.Records fun a b d => P a b d ∨ ∃ x ∈ xs, adds x a b d := by
  induction xs generalizing m P with
  | nil => exact ⟨m, rfl, h.congr fun a b d => by simp⟩
  | cons x xs ih =>
    obtain ⟨m', first, h'⟩ := step x List.mem_cons_self m P h
    obtain ⟨m'', rest, h''⟩ := ih h' fun y hy => step y (List.mem_cons_of_mem x hy)
    refine ⟨m'', ?_, h''.congr fun a b d => ?_⟩
    · rw [List.foldlM_cons, first]
      exact rest
    · rw [or_assoc, List.exists_mem_cons_iff]

end Marks

namespace Sample

variable (s : Sample α)

theorem map_entry (y : Fin s.height) :
    (List.finRange s.width).map (s.entry y) = s.rows.get y := by
  have width : (s.rows.get y).length = s.width := s.rectangular _ (List.get_mem s.rows y)
  apply List.ext_getElem
  · rw [List.length_map, List.length_finRange, width]
  · intro x hx hx'
    rw [List.getElem_map, List.getElem_finRange]
    rfl

/-- Row by row, a scan comes past the tiles as they are written. -/
theorem flatMap_entry :
    (List.finRange s.height).flatMap (fun y => (List.finRange s.width).map (s.entry y)) =
      s.rows.flatten := by
  simp only [map_entry]
  rw [List.flatMap_def]
  exact congrArg List.flatten (List.map_get_finRange s.rows)

variable [BEq α]

/-- How often a tile occurs. -/
def count (t : α) : Nat := s.rows.flatten.countP (· == t)

theorem tally_eq : s.tally = s.rows.flatten.foldl Tally.add .empty := by
  rw [← flatMap_entry, List.foldl_flatMap]
  simp only [List.foldl_map]
  rfl

section

variable [EquivBEq α]

theorem counts_tally : s.tally.Counts s.rows.flatten := by
  rw [tally_eq]
  exact Tally.counts_empty.foldl_add s.rows.flatten

theorem tiles_eq : s.tiles = (Possibilities.ofList s.rows.flatten).toList := s.counts_tally.tiles

theorem tiles_distinct : s.tiles.Pairwise fun a b => (a == b) = false := by
  rw [tiles_eq]
  exact (Possibilities.ofList s.rows.flatten).distinct

theorem any_tiles (v : α) : s.tiles.any (· == v) = s.rows.flatten.any (· == v) := by
  rw [tiles_eq]
  exact Possibilities.contains_ofList s.rows.flatten v

theorem any_entry (row : Fin s.height) (col : Fin s.width) :
    s.tiles.any (· == s.entry row col) = true := by
  rw [any_tiles, List.any_eq_true]
  exact ⟨_, mem_flatten_of_tile? (s.tile?_entry row col), BEq.rfl⟩

end

section Index

variable {tiles : List α} (distinct : tiles.Pairwise fun a b => (a == b) = false)
include distinct

theorem lookUp_indices [EquivBEq α] [AsValue α] {v : α} (known : tiles.any (· == v) = true) :
    ∃ i, (indices tiles).lookUp v = .ok i ∧ (tiles.get i == v) = true := by
  obtain ⟨t, ht, same⟩ := List.any_eq_true.1 known
  obtain ⟨i, rfl⟩ := List.get_of_mem ht
  have pairs : (indices tiles).pairs = tiles.zip (List.finRange tiles.length) := by
    have first : (tiles.zip (List.finRange tiles.length)).map Prod.fst = tiles :=
      List.map_fst_zip (Nat.le_of_eq List.length_finRange.symm)
    rw [← first, List.pairwise_map] at distinct
    exact Assoc.pairs_ofList distinct
  have mem : (tiles.get i, i) ∈ (indices tiles).pairs := by
    rw [pairs, List.mem_iff_getElem?]
    refine ⟨i, List.getElem?_zip_eq_some.2 ⟨List.getElem?_eq_getElem i.isLt, ?_⟩⟩
    rw [List.getElem?_eq_getElem (by rw [List.length_finRange]; exact i.isLt),
      List.getElem_finRange]
    rfl
  have found := (Assoc.get?_congr _ (BEq.symm same)).trans (Assoc.get?_of_mem mem)
  exact ⟨i, by rw [Assoc.lookUp, found], same⟩

/-- No two tiles of a list are equal to the same tile. -/
theorem beq_get_iff [EquivBEq α] {here : Fin tiles.length} {a : α}
    (same : (tiles.get here == a) = true) (i : Fin tiles.length) :
    (a == tiles.get i) = true ↔ i = here := by
  constructor
  · intro equal
    have both := BEq.trans same equal
    rcases Nat.lt_trichotomy i here with before | equal | after
    · have different := List.pairwise_iff_getElem.1 distinct i here i.isLt here.isLt before
      cases different.symm.trans (BEq.symm both)
    · exact Fin.ext equal
    · have different := List.pairwise_iff_getElem.1 distinct here i here.isLt i.isLt after
      cases different.symm.trans both
  · rintro rfl
    exact BEq.symm same

end Index

/-- What is seen from one place when looking in a direction. -/
def ShowsAt (y x : Nat) (d : Direction) (v w : α) : Prop :=
  ∃ (y' x' : Nat) (a b : α), d.vector = [(y' : Int) - y, (x' : Int) - x] ∧
    s.tile? y x = some a ∧ s.tile? y' x' = some b ∧ (a == v) = true ∧ (b == w) = true

theorem shows_iff (d : Direction) (v w : α) :
    s.Shows d v w ↔ ∃ y x, s.ShowsAt y x d v w := by
  constructor
  · rintro ⟨a, b, ⟨y, x, y', x', step, ha, hb⟩, hav, hbw⟩
    exact ⟨y, x, y', x', a, b, step, ha, hb, hav, hbw⟩
  · rintro ⟨y, x, y', x', a, b, step, ha, hb, hav, hbw⟩
    exact ⟨a, b, ⟨y, x, y', x', step, ha, hb⟩, hav, hbw⟩

theorem exists_showsAt {s : Sample α} {d : Direction} {v w : α} (h : s.Shows d v w) :
    ∃ (row : Fin s.height) (col : Fin s.width), s.ShowsAt row col d v w := by
  obtain ⟨y, x, shown⟩ := (s.shows_iff d v w).1 h
  obtain ⟨_, _, _, _, _, ha, _⟩ := id shown
  exact ⟨⟨y, (tile?_lt ha).1⟩, ⟨x, (tile?_lt ha).2⟩, shown⟩

/-- What a look adds to the marks: what is seen, and the same from the far end. -/
def Looked (y x : Nat) (d : Direction) (i j : Fin s.tiles.length) (e : Direction) : Prop :=
  e = d ∧ s.ShowsAt y x d (s.tiles.get i) (s.tiles.get j) ∨
    e = d.reverse ∧ s.ShowsAt y x d (s.tiles.get j) (s.tiles.get i)

variable {s} {row : Fin s.height} {col : Fin s.width} {d : Direction} {down right : Nat}

/-- A look that stays inside the sample sees one tile. -/
theorem showsAt_iff (step : d.vector = [(down : Int), (right : Int)]) {b : α}
    (inside : s.tile? (row + down) (col + right) = some b) (v w : α) :
    s.ShowsAt row col d v w ↔ (s.entry row col == v) = true ∧ (b == w) = true := by
  constructor
  · rintro ⟨y', x', a', b', step', ha, hb, hav, hbw⟩
    simp only [step, List.cons.injEq, and_true] at step'
    obtain rfl : y' = row + down := by omega
    obtain rfl : x' = col + right := by omega
    cases (s.tile?_entry row col).symm.trans ha
    cases inside.symm.trans hb
    exact ⟨hav, hbw⟩
  · rintro ⟨hav, hbw⟩
    refine ⟨row + down, col + right, _, b, ?_, s.tile?_entry row col, inside, hav, hbw⟩
    simp only [step, List.cons.injEq, and_true]
    omega

theorem not_showsAt (step : d.vector = [(down : Int), (right : Int)])
    (outside : s.height ≤ row + down ∨ s.width ≤ col + right) (v w : α) :
    ¬ s.ShowsAt row col d v w := by
  rintro ⟨y', x', _, _, step', _, hb, _⟩
  have bounds := tile?_lt hb
  simp only [step, List.cons.injEq, and_true] at step'
  omega

variable [EquivBEq α] [AsValue α] {m : Marks s.tiles.length}
  {P : Fin s.tiles.length → Fin s.tiles.length → Direction → Prop}

theorem records_markNeighbor (h : m.Records P) (ahead : d ∈ [.right, .down])
    {here : Fin s.tiles.length} (tile : (s.tiles.get here == s.entry row col) = true) :
    ∃ m', s.markNeighbor (indices s.tiles) row col here m d = .ok m' ∧
      m'.Records fun i j e => P i j e ∨ s.Looked row col d i j e := by
  obtain ⟨down, right, step⟩ := Direction.vector_of_ahead ahead
  simp only [markNeighbor, step, List.getD_cons_zero, List.getD_cons_succ, ← Int.natCast_add,
    Int.ofNat_le]
  by_cases outside : s.height ≤ row + down ∨ s.width ≤ col + right
  · refine ⟨m, by rw [if_pos outside]; rfl, h.congr fun i j e => ?_⟩
    have unseen := not_showsAt step outside
    simp only [Looked, unseen, and_false, or_self, or_false]
  · obtain ⟨b, hb⟩ := s.exists_tile? (y := row + down) (x := col + right) (by omega) (by omega)
    have known : s.tiles.any (· == b) = true := by
      rw [any_tiles, List.any_eq_true]
      exact ⟨b, mem_flatten_of_tile? hb, BEq.rfl⟩
    obtain ⟨there, found, same⟩ := lookUp_indices s.tiles_distinct known
    refine ⟨_, ?_, ((h.mark here there d).mark there here d.reverse).congr fun i j e => ?_⟩
    · rw [if_neg outside, read_of_tile? hb]
      change (indices s.tiles).lookUp b >>= _ = _
      rw [found]
      rfl
    · simp only [Looked, showsAt_iff step hb, beq_get_iff s.tiles_distinct tile,
        beq_get_iff s.tiles_distinct same]
      tauto

/-- The marks of a sample are what it shows. -/
theorem records_marks (s : Sample α) : ∃ m, s.marks = .ok m ∧
    m.Records fun i j d => s.Shows d (s.tiles.get i) (s.tiles.get j) := by
  -- From the inside out: the directions of a place, the places of a row, the rows.
  have rows : ∃ m, s.marks = .ok m ∧ m.Records fun i j e => False ∨
      ∃ row ∈ List.finRange s.height, ∃ col ∈ List.finRange s.width,
        ∃ d ∈ [.right, .down], s.Looked row col d i j e := by
    refine Marks.records_blank.foldlM fun row _ m P h => h.foldlM fun col _ m P h => ?_
    obtain ⟨here, found, same⟩ := lookUp_indices s.tiles_distinct (s.any_entry row col)
    rw [found]
    exact h.foldlM fun d ahead m P h => records_markNeighbor h ahead same
  obtain ⟨m, marked, records⟩ := rows
  refine ⟨m, marked, records.congr fun i j e => ?_⟩
  simp only [false_or, List.mem_finRange, true_and]
  constructor
  · rintro ⟨row, col, d, _, ⟨rfl, shown⟩ | ⟨rfl, shown⟩⟩
    · exact (s.shows_iff _ _ _).2 ⟨row, col, shown⟩
    · exact (s.shows_reverse d _ _).2 ((s.shows_iff _ _ _).2 ⟨row, col, shown⟩)
  · intro shows
    rcases e.ahead_or_reverse with ahead | ahead
    · obtain ⟨row, col, shown⟩ := exists_showsAt shows
      exact ⟨row, col, e, ahead, .inl ⟨rfl, shown⟩⟩
    · rw [← e.reverse_reverse, s.shows_reverse] at shows
      obtain ⟨row, col, shown⟩ := exists_showsAt shows
      exact ⟨row, col, e.reverse, ahead, .inr ⟨e.reverse_reverse.symm, shown⟩⟩

theorem lookUp_frequencies {t : α} (h : t ∈ s.tiles) :
    s.tally.frequencies.lookUp t = .ok (s.count t) := by
  have counts := s.counts_tally
  have present : s.tally.frequencies.contains t = true := by
    rw [Assoc.contains_eq_any_keys, counts.keys]
    exact List.any_eq_true.2 ⟨t, h, BEq.rfl⟩
  rw [Assoc.contains_eq_isSome] at present
  obtain ⟨k, hk⟩ := Option.isSome_iff_exists.1 present
  have counted := counts.frequency t
  rw [hk, Option.getD_some] at counted
  rw [Assoc.lookUp, hk, counted]
  rfl

/-- What is learned from a sample, given its marks. -/
def taught (s : Sample α) (m : Marks s.tiles.length) : Lessons α :=
  ⟨s.tiles, s.tiles.map s.count, m⟩

theorem learn_eq (s : Sample α) : ∃ m, s.learn = .ok (s.taught m) ∧
    m.Records fun i j d => s.Shows d (s.tiles.get i) (s.tiles.get j) := by
  obtain ⟨m, marked, records⟩ := s.records_marks
  refine ⟨m, ?_, records⟩
  rw [learn, mapM_eq_ok_map fun t ht => lookUp_frequencies ht, marked]
  rfl

omit [EquivBEq α] in
theorem index_taught (m : Marks s.tiles.length) {t : α}
    (known : s.tiles.any (· == t) = true) :
    ∃ i : Fin s.tiles.length, (s.taught m).index t = .ok i ∧ (s.tiles.get i == t) = true := by
  unfold Lessons.index
  cases found : (s.taught m).tiles.findFinIdx? (· == t) with
  | none =>
    obtain ⟨u, hu, same⟩ := List.any_eq_true.1 known
    exact absurd same (List.findFinIdx?_eq_none_iff.1 found u hu)
  | some i => exact ⟨i, rfl, (List.findFinIdx?_eq_some_iff.1 found).1⟩

omit [EquivBEq α] [AsValue α] in
theorem hint_taught (m : Marks s.tiles.length) {i : Nat} {t : α} (h : s.tiles[i]? = some t) :
    (s.taught m).hint i = .ok (s.count t) := by
  rw [Lessons.hint, taught, List.getElem?_map, h]
  rfl

omit [AsValue α] in
theorem count_congr (s : Sample α) {t u : α} (h : (t == u) = true) : s.count t = s.count u := by
  unfold count
  congr 1
  funext v
  exact BEq.congr_right h

omit [AsValue α] in
theorem shows_congr (s : Sample α) {t u : α} (h : (t == u) = true) (d : Direction) (v : α) :
    s.Shows d t v ↔ s.Shows d u v := by
  simp only [Shows, BEq.congr_right h]

open Classical in
/-- The tiles that the sample shows next to a tile in a direction. -/
noncomputable def beside (s : Sample α) (t : α) (d : Direction) : List α :=
  s.tiles.filter fun u => s.Shows d t u

omit [EquivBEq α] [AsValue α] in
theorem mem_beside {t u : α} {d : Direction} :
    u ∈ s.beside t d ↔ u ∈ s.tiles ∧ s.Shows d t u := by
  simp only [beside, List.mem_filter, decide_eq_true_eq]

omit [AsValue α] in
theorem beside_congr (s : Sample α) {t u : α} (h : (t == u) = true) (d : Direction) :
    s.beside t d = s.beside u d :=
  List.filter_congr fun v _ => decide_eq_decide.2 (s.shows_congr h d v)

open Classical in
theorem compatible_taught {m : Marks s.tiles.length}
    (records : m.Records fun i j d => s.Shows d (s.tiles.get i) (s.tiles.get j)) {t : α}
    (known : s.tiles.any (· == t) = true) (d : Direction) :
    (s.taught m).compatible t d = .ok (s.beside t d) := by
  obtain ⟨i, found, same⟩ := index_taught m known
  have listed : s.beside t d =
      ((List.finRange s.tiles.length).filter fun j => m.get i j d).map s.tiles.get := by
    rw [beside]
    conv_lhs => rw [← List.map_get_finRange s.tiles]
    rw [List.filter_map]
    congr 1
    refine List.filter_congr fun j _ => ?_
    rw [Bool.eq_iff_iff]
    exact decide_eq_true_iff.trans ((s.shows_congr same d _).symm.trans (records i j d).symm)
  rw [Lessons.compatible, found, listed]
  rfl

omit [AsValue α] in
theorem known_of_mem {t : α} (h : t ∈ s.tiles) : s.tiles.any (· == t) = true :=
  List.any_eq_true.2 ⟨t, h, BEq.rfl⟩

theorem compatible_eq {t : α} (known : s.tiles.any (· == t) = true) (d : Direction) :
    s.compatible t d = .ok (s.beside t d) := by
  obtain ⟨m, learned, records⟩ := s.learn_eq
  rw [compatible, learned]
  exact compatible_taught records known d

theorem frequency_eq {t : α} (known : s.tiles.any (· == t) = true) :
    s.frequency t = .ok (s.count t) := by
  obtain ⟨m, learned, _⟩ := s.learn_eq
  obtain ⟨i, found, same⟩ := index_taught m known
  rw [frequency, learned]
  change (s.taught m).frequency t = _
  rw [Lessons.frequency, found, ← s.count_congr same]
  exact hint_taught m (List.getElem?_eq_getElem i.isLt)

/-- The allowed neighbors of every tile, direction by direction. -/
noncomputable def lessons (s : Sample α) : List (α × List (List α)) :=
  s.tiles.map fun t => (t, Direction.all.map (s.beside t))

/-- The weight of every tile. -/
def weights (s : Sample α) : List (α × Value) :=
  s.tiles.map fun t => (t, .ofBinary (.ofInt (s.count t)))

theorem table_eq (s : Sample α) : s.table =
    Table.make (Direction.all.map Direction.vector) (.ofList s.lessons) (.ofList s.weights) := by
  obtain ⟨m, learned, records⟩ := s.learn_eq
  have allowed : (s.taught m).tiles.mapM (fun t => do
      pure (t, ← Direction.all.mapM ((s.taught m).compatible t))) = .ok s.lessons := by
    refine mapM_eq_ok_map fun t ht => ?_
    rw [mapM_eq_ok_map fun d _ => compatible_taught records (known_of_mem ht) d]
    rfl
  have weights : (s.taught m).tiles.zipIdx.mapM (fun p => do
      let k ← (s.taught m).hint p.2
      pure (p.1, Value.ofBinary (.ofInt k))) = .ok s.weights := by
    have heard : s.weights =
        s.tiles.zipIdx.map fun p => (p.1, Value.ofBinary (.ofInt (s.count p.1))) := by
      conv_lhs => rw [Sample.weights, ← List.zipIdx_map_fst 0 s.tiles, List.map_map]
      rfl
    rw [heard]
    refine mapM_eq_ok_map fun p hp => ?_
    rw [hint_taught m (List.mem_zipIdx_iff_getElem?.1 hp)]
    rfl
  rw [table, learned]
  change (s.taught m).table = _
  simp only [Lessons.table, allowed, weights]
  rfl

end Sample

end CellCollapse
