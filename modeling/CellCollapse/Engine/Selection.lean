import CellCollapse.Engine.Basic

set_option autoImplicit false

/-!
# Selections

A selection goes through the table of unresolved coordinates once. It keeps the lowest entropy read
so far with the coordinates that have it, and it notes which coordinates have become decided. Those
are taken out of the table when the scan is over, and then the tie among the others is broken.
-/
namespace CellCollapse

/-- What a scan has found so far. A decided coordinate is noted with its place in the table. -/
structure Scan (κ : Type) where
  lowest : Option Int
  candidates : Array κ
  resolved : List (Nat × κ)

namespace Scan

variable {σ κ δ : Type} {n : Nat}

/-- Before anything is read, the lowest entropy counts as infinite. -/
def empty : Scan κ := ⟨none, #[], []⟩

/-- Takes note of the entropy at a coordinate. -/
def note (scan : Scan κ) (place : Nat) (c : κ) (entropy : Int) : Scan κ :=
  if entropy = 0 then { scan with resolved := (place, c) :: scan.resolved }
  else if scan.lowest.all fun least => decide (entropy < least) then
    { scan with lowest := some entropy, candidates := #[c] }
  else if scan.lowest = some entropy then { scan with candidates := scan.candidates.push c }
  else scan

/-- Reads the entropies at coordinates that stand in the table from a place on, up to the first one
without a cell. -/
def along [CellState σ] (space : Space κ δ n) (cells : Vector σ n) :
    (place : Nat) → List κ → Scan κ → Scan κ × Option Fault
  | _, [], scan => (scan, none)
  | place, c :: cs, scan =>
    match space.get cells c with
    | .error f => (scan, some f)
    | .ok s => along space cells (place + 1) cs (scan.note place c (CellState.entropy s))

end Scan

variable {σ κ δ ρ : Type} {n : Nat}

/-- Takes coordinates out of a table, up to the first one that is not there. A table has a
coordinate only once, in the place where it was read; what is taken out leaves its place vacant. -/
def takeOut : Array (Option κ) → List (Nat × κ) → Array (Option κ) × Option κ
  | table, [] => (table, none)
  | table, (place, c) :: rest =>
    match table[place]? with
    | some (some _) => takeOut (table.setIfInBounds place none) rest
    | _ => (table, some c)

/-- What a selection leaves behind, and its choice. -/
structure Selection (κ ρ : Type) where
  candidates : List κ
  unresolved : List κ
  context : ρ
  choice : Except (Failure κ) (Option κ)

/-- Chooses an undecided coordinate of lowest entropy and forgets the decided ones. A fault of the
space leaves the table as it was and draws nothing; a choice that stands for no cell is none. -/
def Space.select [CellState σ] (space : Space κ δ n) (pick : TieBreak ρ) (cells : Vector σ n)
    (unresolved : List κ) (context : ρ) : Selection κ ρ :=
  let (scan, fault) := Scan.along space cells 0 unresolved .empty
  let candidates := scan.candidates.toList
  match fault with
  | some f => ⟨candidates, unresolved, context, .error (.raised f)⟩
  | none =>
    let (table, absent) := takeOut (unresolved.map some).toArray scan.resolved
    let unresolved := table.toList.filterMap id
    match absent with
    | some c => ⟨candidates, unresolved, context, .error (.missing c)⟩
    | none =>
      match candidates with
      | [] => ⟨[], unresolved, context, .ok none⟩
      | c :: cs =>
        let (k, context) := pick cs.length context
        let chosen := (c :: cs).get k
        ⟨c :: cs, unresolved, context, .ok (if space.nowhere chosen then none else some chosen)⟩

end CellCollapse
