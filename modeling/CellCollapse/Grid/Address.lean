import CellCollapse.Grid.Basic
import CellCollapse.Value.Arithmetic

set_option autoImplicit false

/-!
# Addresses

A grid can be addressed by values. A tuple of integers is a coordinate, and an address of any other
form never names a cell: `Address.refusal` tells why. A tuple with truth values names a part of the
grid, which can be filled. Deltas may be of any form as well, and lead to addresses that need not be
coordinates. On coordinates, `Grid.getAt` and `Grid.neighborsAt` are
`Grid.get` and `Grid.neighbors`.
-/
namespace CellCollapse

namespace Address

/-- The coordinate that a value spells. -/
def coord? : Value → Option Coord
  | .tuple vs => vs.mapM fun v =>
    match v with
    | .int n => some n
    | _ => none
  | _ => none

/-- Goes through the entries of an address. The first one that is no number, or lies outside, is the
fault. -/
def check (address : Value) (sizes : List Nat) : List Value → List Nat → Except Fault Unit
  | v :: vs, s :: ss =>
    if !v.isNumber then .error (.notOrdered "<=" (.int 0) v)
    else if v.isFrom 0 && v.isBelow s then check address sizes vs ss
    else .error (.outsideGrid address sizes)
  | _, _ => .ok ()

/-- The fault of an address that spells no coordinate. -/
def refusal (address : Value) (sizes : List Nat) : Fault :=
  match address.length, address.unpack with
  | .ok n, .ok vs =>
    if n = sizes.length then
      match check address sizes vs sizes with
      | .error f => f
      | .ok _ => if vs.any Value.isFloat then .notAnIndex else .notACell
    else .outsideGrid address sizes
  | .error f, _ => f
  | _, .error f => f

/-- The first entries of the coordinates in the part that a tuple with truth values names. They are
its integers, and a single `false` makes the part empty. -/
def part? (address : Value) : Option Coord :=
  match address with
  | .tuple vs =>
    if vs.any fun v => v.isBool && v == .bool false then none
    else some (vs.filterMap fun v => if v.isBool then none else v.whole?)
  | _ => none

/-- The address that a delta leads to, entry by entry. -/
def move (periodic : Bool) : List Nat → List Value → List Value →
    Except Fault (Option (List Value))
  | s :: ss, p :: ps, d :: ds => do
    let q ← p.add d
    if periodic then
      let q ← q.remainder s
      return (← move periodic ss ps ds).map (q :: ·)
    else if !q.isNumber then .error (.notOrdered "<" q (.int 0))
    else if q.isBelow 0 || q.isFrom s then return none
    else return (← move periodic ss ps ds).map (q :: ·)
  | _, _, _ => .ok (some [])

end Address

namespace Grid

variable {σ : Type}

def getAt (g : Grid σ) (address : Value) : Except Fault σ :=
  match Address.coord? address with
  | some c => g.get c
  | none => .error (Address.refusal address g.shape.sizes)

/-- Gives one entry to all cells whose coordinates begin in a given way. -/
def fill (g : Grid σ) (lead : Coord) (s : σ) : Grid σ :=
  ⟨g.shape, g.periodic,
    g.shape.coordinateVector.zipWith (fun c old => if lead.isPrefixOf c then s else old) g.cells⟩

def setAt (g : Grid σ) (address : Value) (s : σ) : Except Fault (Grid σ) :=
  match Address.coord? address with
  | some c => g.set c s
  | none =>
    match Address.refusal address g.shape.sizes with
    | .notACell => .ok ((Address.part? address).elim g fun lead => g.fill lead s)
    | f => .error f

/-- Looks up where deltas of any form lead, for a buffer with the given room. -/
def reach (g : Grid σ) (address : Value) : List Value → (room : Nat) → Lookup Value
  | [], _ => .done
  | d :: ds, room =>
    match d.length with
    | .error f => .stop f
    | .ok n =>
      if n ≠ g.axes then .stop (.deltaLength d g.axes)
      else
        match address.unpack, d.unpack with
        | .error f, _ => .stop f
        | _, .error f => .stop f
        | .ok ps, .ok steps =>
          match Address.move g.periodic g.shape.sizes ps steps, room with
          | .error f, _ => .stop f
          | _, 0 => .stop .noRoom
          | .ok q, room + 1 => .cons (q.map .tuple) (g.reach address ds room)

/-- Looks up the neighbors of an address along some deltas, for a buffer with the given room. -/
def neighborsAt (g : Grid σ) (address : Value) (ds : List Value) (room : Nat) : Lookup Value :=
  match Address.coord? address, ds.mapM Address.coord? with
  | some c, some steps => (g.neighbors c steps room).map asValue
  | _, _ => g.reach address ds room

/-- The space of a grid whose entries are slots, with values for coordinates and deltas. -/
def addressed {n : Nat} (g : Grid (Fin n)) : Space Value Value n where
  coordinates := g.coordinates.map asValue
  slot := g.getAt
  neighbors c ds := g.neighborsAt c ds ds.length
  nowhere _ := false

end Grid

end CellCollapse
