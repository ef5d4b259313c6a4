import CellCollapse.Engine.Step

set_option autoImplicit false

/-!
# Collapse

`Engine.run` makes a space consistent with a rule and then observes and propagates until every cell
is decided. The number of steps is bounded by `Engine.potential`: every step either shortens the
queue, or lowers the total entropy by one and lengthens the queue by no more than one place per
offset.
-/
namespace CellCollapse.Engine

variable {σ κ δ ρ : Type} {n : Nat} [CellState σ]

/-- Adds a coordinate at the end unless it is there already. -/
def addNew [BEq κ] (cs : List κ) (c : κ) : List κ := if cs.contains c then cs else cs ++ [c]

/-- The entropies at some coordinates, up to the first one without a cell. -/
def readings (space : Space κ δ n) (cells : Vector σ n) : List κ → List (κ × Int) × Option Fault
  | [] => ([], none)
  | c :: cs =>
    match space.get cells c with
    | .error f => ([], some f)
    | .ok s =>
      let (rest, fault) := readings space cells cs
      ((c, CellState.entropy s) :: rest, fault)

/-- Queues the undecided cells of the space. -/
def start [BEq κ] (e : Engine σ κ δ ρ n) (r : Run σ κ ρ n) : Outcome σ κ ρ n :=
  let (rs, fault) := readings e.space r.cells e.space.coordinates
  let found := (rs.filter fun q => decide (0 < q.2)).map Prod.fst
  let r := { r with unresolved := found.foldl addNew r.unresolved }
  match fault with
  | some f => .failed r (.raised f)
  | none =>
    .running { r with
      events := r.events ++ [.started r.unresolved.length e.rule.offsets.length]
      queue := r.queue ++ r.unresolved }

/-- The sum of the entropies of all states. -/
def totalEntropy (cells : Vector σ n) : Nat :=
  cells.toList.foldr (fun s total => (CellState.entropy s).toNat + total) 0

/-- A bound on the steps that a run can still take. -/
def potential (e : Engine σ κ δ ρ n) (r : Run σ κ ρ n) : Nat :=
  r.queue.length + (e.rule.offsets.length + 1) * totalEntropy r.cells + 1

/-- Takes steps as long as the run goes on, up to a number of them. -/
def advance (e : Engine σ κ δ ρ n) : Nat → Run σ κ ρ n → Outcome σ κ ρ n
  | 0, r => .running r
  | steps + 1, r =>
    match e.step r with
    | .running r => e.advance steps r
    | outcome => outcome

/-- Empties the queue, up to a number of steps. -/
def drain (e : Engine σ κ δ ρ n) : Nat → Run σ κ ρ n → Outcome σ κ ρ n
  | 0, r => .running r
  | steps + 1, r =>
    match r.queue with
    | [] => .finished r
    | c :: rest =>
      match e.propagateAt c { r with queue := rest } with
      | .running r => e.drain steps r
      | outcome => outcome

/-- Lets all queued cells react, and those that they bring into the queue. -/
def propagate (e : Engine σ κ δ ρ n) (r : Run σ κ ρ n) : Outcome σ κ ρ n :=
  e.drain (e.potential r) r

/-- Collapses the space. A run may be taken up again where it failed. -/
def run [BEq κ] (e : Engine σ κ δ ρ n) (r : Run σ κ ρ n) : Outcome σ κ ρ n :=
  match e.start r with
  | .running r => e.advance (e.potential r) r
  | outcome => outcome

/-- Collapses a space from given cells. -/
def collapse [BEq κ] (e : Engine σ κ δ ρ n) (cells : Vector σ n) (context : ρ) :
    Outcome σ κ ρ n :=
  e.run (e.fresh cells context)

end CellCollapse.Engine
