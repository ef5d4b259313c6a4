import CellCollapse.Direction
import CellCollapse.Grid.NestedArray
import CellCollapse.Rule.Table

set_option autoImplicit false

/-!
# Samples

A sample is a filled rectangle of tiles. A first pass over it lists its tiles and counts them; a
second one marks in an array which tiles stand next to each other, in which direction. These are its
`Lessons`, and `Lessons.table` makes a rule of them.
-/
namespace CellCollapse

structure Sample (α : Type) where
  rows : List (List α)
  width : Nat
  nonempty : rows ≠ []
  positive : 0 < width
  rectangular : ∀ row ∈ rows, row.length = width

namespace Sample

variable {α : Type}

def height (s : Sample α) : Nat := s.rows.length

/-- Cuts entries into rows. -/
def cut (width : Nat) : (count : Nat) → List α → List (List α)
  | 0, _ => []
  | count + 1, xs => xs.take width :: cut width count (xs.drop width)

/-- The sample of some rows, if they form a rectangle with at least one tile. -/
def ofRows? (rows : List (List α)) (width : Nat) : Option (Sample α) :=
  if h : rows ≠ [] ∧ 0 < width ∧ ∀ row ∈ rows, row.length = width then
    some ⟨rows, width, h.1, h.2.1, h.2.2⟩
  else none

def isNaN : Value → Bool
  | .float x _ => match x.reading with
    | .notANumber => true
    | _ => false
  | _ => false

/-- The sample held by an array with two axes. Its entries have to be scalars of one type, and a
tile that differs from itself cannot be looked up. -/
def ofArray (a : NestedArray) : Except Fault (Sample Value) :=
  match a.shape with
  | [count, width] =>
    match ofRows? (cut width count a.entries) width with
    | none => .error (.sampleShape a.shape)
    | some s =>
      if a.uniform then
        match a.entries.find? isNaN with
        | some v => .error (.unknownKey v)
        | none => .ok s
      else .error (.noScalar (a.entries.headD .null))
  | _ => .error (.sampleShape a.shape)

def entry (s : Sample α) (row : Fin s.height) (col : Fin s.width) : α :=
  (s.rows.get row).get ⟨col.val, by
    rw [s.rectangular _ (List.get_mem s.rows row)]
    exact col.isLt⟩

/-- The place that an index names on an axis. A negative index counts from the end. -/
def place (axis size : Nat) (index : Int) : Except Fault (Fin size) :=
  let k := if index < 0 then index + size else index
  if h : 0 ≤ k ∧ k < size then .ok ⟨k.toNat, by omega⟩ else .error (.outOfBounds index axis size)

def read (s : Sample α) (row col : Int) : Except Fault α := do
  let y ← place 0 s.height row
  let x ← place 1 s.width col
  pure (s.entry y x)

end Sample

variable {α : Type} [BEq α]

/-- The tiles met so far, and how often each of them was. -/
structure Tally (α : Type) [BEq α] where
  tiles : List α
  frequencies : Assoc α Nat

namespace Tally

def empty : Tally α := ⟨[], .empty⟩

def add (t : Tally α) (tile : α) : Tally α :=
  if t.frequencies.contains tile then
    { t with frequencies := t.frequencies.modify tile (· + 1) }
  else ⟨t.tiles ++ [tile], t.frequencies.insert tile 1⟩

end Tally

/-- A truth value for every two of some tiles and every direction. -/
structure Marks (count : Nat) where
  entries : Vector (Vector (Vector Bool 4) count) count

namespace Marks

variable {count : Nat}

def blank : Marks count := ⟨.replicate count (.replicate count (.replicate 4 false))⟩

def get (m : Marks count) (a b : Fin count) (d : Direction) : Bool :=
  ((m.entries.get a).get b).get ⟨d.number, d.number_lt⟩

def mark (m : Marks count) (a b : Fin count) (d : Direction) : Marks count :=
  let plane := m.entries.get a
  ⟨m.entries.set a.val
    (plane.set b.val ((plane.get b).set d.number true d.number_lt) b.isLt) a.isLt⟩

end Marks

/-- What is learned from a sample: its tiles, how often each of them occurs, and which of them stand
side by side. -/
structure Lessons (α : Type) where
  tiles : List α
  frequencies : List Nat
  marks : Marks tiles.length

/-- The entry of a key that has to be there. -/
def Assoc.lookUp {β : Type} [AsValue α] (m : Assoc α β) (k : α) : Except Fault β :=
  match m.get? k with
  | some b => .ok b
  | none => .error (.unknownKey (asValue k))

namespace Sample

def tally (s : Sample α) : Tally α :=
  (List.finRange s.height).foldl
    (fun t row => (List.finRange s.width).foldl (fun t col => t.add (s.entry row col)) t) .empty

/-- The distinct tiles, row by row in order of their first occurrence. -/
def tiles (s : Sample α) : List α := s.tally.tiles

/-- The place of every tile in a list of tiles. -/
def indices (tiles : List α) : Assoc α (Fin tiles.length) :=
  .ofList (tiles.zip (List.finRange tiles.length))

variable [AsValue α]

/-- Looks one step in a direction from a place that holds the tile with number `here`. Unless the
step leaves the sample, the two tiles are marked as neighbors, seen from both ends. -/
def markNeighbor (s : Sample α) {count : Nat} (indices : Assoc α (Fin count)) (row : Fin s.height)
    (col : Fin s.width) (here : Fin count) (m : Marks count) (d : Direction) :
    Except Fault (Marks count) := do
  let neighborRow : Int := row.val + d.vector.getD 0 0
  let neighborCol : Int := col.val + d.vector.getD 1 0
  if s.height ≤ neighborRow ∨ s.width ≤ neighborCol then pure m
  else
    let neighbor ← s.read neighborRow neighborCol
    let there ← indices.lookUp neighbor
    pure ((m.mark here there d).mark there here d.reverse)

/-- Marks which tiles stand side by side. Only the steps to the right and down are looked at; the
other two directions come from the far end of a step. -/
def marks (s : Sample α) : Except Fault (Marks s.tiles.length) :=
  let indices := indices s.tiles
  (List.finRange s.height).foldlM
    (fun m row => (List.finRange s.width).foldlM
      (fun m col => do
        let here ← indices.lookUp (s.entry row col)
        [.right, .down].foldlM (s.markNeighbor indices row col here) m) m) .blank

def learn (s : Sample α) : Except Fault (Lessons α) := do
  let frequencies ← s.tiles.mapM s.tally.frequencies.lookUp
  let marks ← s.marks
  pure ⟨s.tiles, frequencies, marks⟩

end Sample

namespace Lessons

variable [AsValue α]

def index (l : Lessons α) (t : α) : Except Fault (Fin l.tiles.length) :=
  match l.tiles.findFinIdx? (· == t) with
  | some i => .ok i
  | none => .error (.notListed (asValue t))

/-- The tiles that occur next to a tile in a direction. -/
def compatible (l : Lessons α) (t : α) (d : Direction) : Except Fault (List α) := do
  let i ← l.index t
  pure (((List.finRange l.tiles.length).filter fun j => l.marks.get i j d).map l.tiles.get)

omit [BEq α] [AsValue α] in
/-- How often the tile with a number occurs. -/
def hint (l : Lessons α) (i : Nat) : Except Fault Nat :=
  match l.frequencies[i]? with
  | some k => .ok k
  | none => .error (.outOfBounds i 0 l.frequencies.length)

def frequency (l : Lessons α) (t : α) : Except Fault Nat := do
  let i ← l.index t
  l.hint i

/-- The rule that the lessons make: tiles stand where they stood in the sample, and are chosen as
often as they occurred. -/
def table (l : Lessons α) : Except Fault (Table α Delta) := do
  let allowed ← l.tiles.mapM fun t => do pure (t, ← Direction.all.mapM (l.compatible t))
  let weights ← l.tiles.zipIdx.mapM fun p => do
    let k ← l.hint p.2
    pure (p.1, Value.ofBinary (.ofInt k))
  Table.make (Direction.all.map Direction.vector) (.ofList allowed) (.ofList weights)

end Lessons

namespace Sample

/-- A cell that may take any tile. -/
def anyTile (s : Sample α) : Possibilities α := .ofList s.tiles

variable [AsValue α]

def compatible (s : Sample α) (t : α) (d : Direction) : Except Fault (List α) := do
  (← s.learn).compatible t d

def frequency (s : Sample α) (t : α) : Except Fault Nat := do
  (← s.learn).frequency t

def table (s : Sample α) : Except Fault (Table α Delta) := do
  (← s.learn).table

end Sample

end CellCollapse
