import CellCollapse.Proofs.Grid.NestedArray
import CellCollapse.Rule.Symmetric
import CellCollapse.Sample

set_option autoImplicit false

/-!
# Places of a sample

Which tile is where, and which tiles stand side by side: `Sample.Adjoins` for the tiles as they are
written, `Sample.Shows` for tiles equal to them. A step seen from its far end goes in the reverse
direction.
-/
namespace CellCollapse

namespace Direction

theorem vector_reverse (d : Direction) : d.reverse.vector = negate d.vector := by
  cases d <;> rfl

theorem eq_of_vector_eq {d e : Direction} (h : d.vector = e.vector) : d = e := by
  revert h
  cases d <;> cases e <;> decide

theorem getElem?_all (d : Direction) : all[d.number]? = some d := by
  cases d <;> rfl

theorem number_inj {d e : Direction} : d.number = e.number ↔ d = e := by
  cases d <;> cases e <;> decide

/-- The directions that a scan looks in: they lead neither up nor to the left. -/
theorem vector_of_ahead {d : Direction} (h : d ∈ [right, down]) :
    ∃ y x : Nat, d.vector = [(y : Int), (x : Int)] := by
  rcases List.mem_pair.1 h with rfl | rfl
  · exact ⟨0, 1, rfl⟩
  · exact ⟨1, 0, rfl⟩

/-- Of a direction and its reverse, a scan looks in one. -/
theorem ahead_or_reverse (d : Direction) : d ∈ [right, down] ∨ d.reverse ∈ [right, down] := by
  cases d <;> decide

theorem reverse_reverse (d : Direction) : d.reverse.reverse = d := by
  cases d <;> rfl

end Direction

namespace Sample

variable {α : Type}

/-- The tile in a row and a column. -/
def tile? (s : Sample α) (y x : Nat) : Option α := s.rows[y]?.bind (·[x]?)

theorem tile?_eq_some_iff (s : Sample α) (y x : Nat) (a : α) :
    s.tile? y x = some a ↔ ∃ row, s.rows[y]? = some row ∧ row[x]? = some a :=
  Option.bind_eq_some_iff

theorem tile?_lt {s : Sample α} {y x : Nat} {a : α} (h : s.tile? y x = some a) :
    y < s.height ∧ x < s.width := by
  obtain ⟨row, hrow, ha⟩ := (s.tile?_eq_some_iff y x a).1 h
  obtain ⟨hy, _⟩ := List.getElem?_eq_some_iff.1 hrow
  obtain ⟨hx, _⟩ := List.getElem?_eq_some_iff.1 ha
  rw [s.rectangular row (List.mem_of_getElem? hrow)] at hx
  exact ⟨hy, hx⟩

theorem tile?_entry (s : Sample α) (y : Fin s.height) (x : Fin s.width) :
    s.tile? y x = some (s.entry y x) :=
  (s.tile?_eq_some_iff y x _).2
    ⟨s.rows.get y, List.getElem?_eq_getElem y.isLt, List.getElem?_eq_getElem _⟩

theorem exists_tile? (s : Sample α) {y x : Nat} (hy : y < s.height) (hx : x < s.width) :
    ∃ a, s.tile? y x = some a :=
  ⟨_, s.tile?_entry ⟨y, hy⟩ ⟨x, hx⟩⟩

theorem mem_flatten_of_tile? {s : Sample α} {y x : Nat} {a : α} (h : s.tile? y x = some a) :
    a ∈ s.rows.flatten := by
  obtain ⟨row, hrow, ha⟩ := (s.tile?_eq_some_iff y x a).1 h
  exact List.mem_flatten.2 ⟨row, List.mem_of_getElem? hrow, List.mem_of_getElem? ha⟩

theorem exists_tile?_of_mem {s : Sample α} {a : α} (h : a ∈ s.rows.flatten) :
    ∃ y x, s.tile? y x = some a := by
  obtain ⟨row, hrow, ha⟩ := List.mem_flatten.1 h
  obtain ⟨y, hy⟩ := List.mem_iff_getElem?.1 hrow
  obtain ⟨x, hx⟩ := List.mem_iff_getElem?.1 ha
  exact ⟨y, x, (s.tile?_eq_some_iff y x a).2 ⟨row, hy, hx⟩⟩

/-- Indices that are not negative are looked up as they are. -/
theorem read_of_tile? {s : Sample α} {y x : Nat} {a : α} (h : s.tile? y x = some a) :
    s.read y x = .ok a := by
  have inside : ∀ {axis size k : Nat} (hk : k < size), place axis size (k : Int) = .ok ⟨k, hk⟩ := by
    intro axis size k hk
    simp only [place, if_neg (Int.not_lt.2 (Int.natCast_nonneg k)), Int.natCast_nonneg,
      Int.ofNat_lt, hk, and_self, dif_pos, Int.toNat_natCast]
  obtain ⟨hy, hx⟩ := tile?_lt h
  rw [read, inside hy, inside hx]
  exact congrArg Except.ok (Option.some.inj ((s.tile?_entry ⟨y, hy⟩ ⟨x, hx⟩).symm.trans h))

/-- Somewhere in the sample a step in a direction leads from the first tile to the second. -/
def Adjoins (s : Sample α) (d : Direction) (a b : α) : Prop :=
  ∃ y x y' x' : Nat, d.vector = [(y' : Int) - y, (x' : Int) - x] ∧ s.tile? y x = some a ∧
    s.tile? y' x' = some b

theorem adjoins_reverse (s : Sample α) (d : Direction) (a b : α) :
    s.Adjoins d.reverse a b ↔ s.Adjoins d b a := by
  have turned : ∀ y x y' x' : Nat, d.reverse.vector = [(y' : Int) - y, (x' : Int) - x] ↔
      d.vector = [(y : Int) - y', (x : Int) - x'] := by
    intro y x y' x'
    cases d <;> simp only [Direction.reverse, Direction.vector, List.cons.injEq, and_true] <;> omega
  constructor
  · rintro ⟨y, x, y', x', step, ha, hb⟩
    exact ⟨y', x', y, x, (turned y x y' x').1 step, hb, ha⟩
  · rintro ⟨y, x, y', x', step, hb, ha⟩
    exact ⟨y', x', y, x, (turned y' x' y x).2 step, ha, hb⟩

theorem mem_flatten_of_adjoins {s : Sample α} {d : Direction} {a b : α} (h : s.Adjoins d a b) :
    a ∈ s.rows.flatten ∧ b ∈ s.rows.flatten := by
  obtain ⟨_, _, _, _, _, ha, hb⟩ := h
  exact ⟨mem_flatten_of_tile? ha, mem_flatten_of_tile? hb⟩

/-- A step down or to the right. -/
theorem Adjoins.ahead {s : Sample α} {d : Direction} {a b : α} (h : s.Adjoins d a b)
    {down right : Nat} (step : d.vector = [(down : Int), (right : Int)]) :
    ∃ y x, s.tile? y x = some a ∧ s.tile? (y + down) (x + right) = some b := by
  obtain ⟨y, x, y', x', step', ha, hb⟩ := h
  simp only [step, List.cons.injEq, and_true] at step'
  obtain rfl : y' = y + down := by omega
  obtain rfl : x' = x + right := by omega
  exact ⟨y, x, ha, hb⟩

variable [BEq α]

/-- Somewhere in the sample two tiles equal to the given ones stand side by side. -/
def Shows (s : Sample α) (d : Direction) (v w : α) : Prop :=
  ∃ a b, s.Adjoins d a b ∧ (a == v) = true ∧ (b == w) = true

theorem shows_reverse (s : Sample α) (d : Direction) (v w : α) :
    s.Shows d.reverse v w ↔ s.Shows d w v := by
  constructor
  · rintro ⟨a, b, adjoins, ha, hb⟩
    exact ⟨b, a, (s.adjoins_reverse d a b).1 adjoins, hb, ha⟩
  · rintro ⟨b, a, adjoins, hb, ha⟩
    exact ⟨a, b, (s.adjoins_reverse d a b).2 adjoins, ha, hb⟩

end Sample

end CellCollapse
