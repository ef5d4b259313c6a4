import CellCollapse.Engine.Selection

set_option autoImplicit false

/-!
# Steps of a run

A step takes the next coordinate from the queue and lets its cell react to its neighbors. When the
queue is empty, a step chooses one of the undecided cells of lowest entropy and observes it; when
there is none, the run is finished.
-/
namespace CellCollapse.Engine

variable {σ κ δ ρ : Type} {n : Nat} [CellState σ]

/-- Snapshots of the states at some coordinates. -/
def snapshotsOf (space : Space κ δ n) (cells : Vector σ n) : List (Option κ) → Lookup σ
  | [] => .done
  | none :: ns => .cons none (snapshotsOf space cells ns)
  | some c :: ns =>
    match space.get cells c with
    | .error f => .stop f
    | .ok s => .cons (some s) (snapshotsOf space cells ns)

/-- Fills the buffers with the neighbors of a cell and snapshots of their states. -/
def lookAround (e : Engine σ κ δ ρ n) (c : κ) (r : Run σ κ ρ n) : Run σ κ ρ n × Option Fault :=
  let around := e.space.neighbors c e.rule.offsets
  let r := { r with neighbors := around.overwrite r.neighbors }
  match around.fault with
  | some f => (r, some f)
  | none =>
    let states := snapshotsOf e.space r.cells r.neighbors
    ({ r with snapshots := states.overwrite r.snapshots }, states.fault)

/-- Takes over what a rule left behind. -/
def adopt (r : Run σ κ ρ n) (i : Fin n) (reply : Reply σ ρ) : Run σ κ ρ n :=
  { r with
    cells := r.cells.set i.val reply.cell i.isLt
    snapshots := reply.snapshots
    context := reply.context }

/-- Whether the cell at a coordinate is undecided. -/
def isOpen (e : Engine σ κ δ ρ n) (cells : Vector σ n) (c : κ) : Bool :=
  match e.space.get cells c with
  | .ok s => CellState.entropy s != 0
  | .error _ => false

/-- Lets the cell at a coordinate react to its neighbors. A decided cell stays as it is; when a
cell shrinks, its undecided neighbors are queued. -/
def propagateAt (e : Engine σ κ δ ρ n) (c : κ) (r : Run σ κ ρ n) : Outcome σ κ ρ n :=
  match e.space.slot c with
  | .error f => .failed r (.raised f)
  | .ok i =>
    let before := CellState.entropy (r.cells.get i)
    if before = 0 then .running r
    else
      match e.lookAround c r with
      | (r, some f) => .failed r (.raised f)
      | (r, none) =>
        let reply := e.rule.collapse (r.cells.get i) r.snapshots r.context
        let r := adopt r i reply
        match reply.fault with
        | some f => .failed r (.raised f)
        | none =>
          let r := { r with propagations := r.propagations + 1 }
          if CellState.entropy reply.cell < before then
            .running { r with
              queue := r.queue ++ (r.neighbors.filterMap id).filter (e.isOpen r.cells) }
          else .running r

/-- Observes the cell at a coordinate and queues all of its neighbors. -/
def observeAt (e : Engine σ κ δ ρ n) (c : κ) (r : Run σ κ ρ n) : Outcome σ κ ρ n :=
  match e.lookAround c { r with queue := [] } with
  | (r, some f) => .failed r (.raised f)
  | (r, none) =>
    match e.space.slot c with
    | .error f => .failed r (.raised f)
    | .ok i =>
      let reply := e.rule.observe (r.cells.get i) r.snapshots r.context
      let r := adopt r i reply
      match reply.fault with
      | some f => .failed r (.raised f)
      | none =>
        let r := { r with observations := r.observations + 1 }
        if CellState.entropy reply.cell = 0 then
          .running { r with
            events := r.events ++ [.observed c]
            queue := r.neighbors.filterMap id }
        else .failed r (.unsettled c (CellState.entropy reply.cell))

/-- Chooses the next coordinate to observe. -/
def select (e : Engine σ κ δ ρ n) (r : Run σ κ ρ n) :
    Run σ κ ρ n × Except (Failure κ) (Option κ) :=
  let chosen := e.space.select e.pick r.cells r.unresolved r.context
  ({ r with
    candidates := chosen.candidates
    unresolved := chosen.unresolved
    context := chosen.context }, chosen.choice)

def step (e : Engine σ κ δ ρ n) (r : Run σ κ ρ n) : Outcome σ κ ρ n :=
  match r.queue with
  | c :: rest => e.propagateAt c { r with queue := rest }
  | [] =>
    match e.select r with
    | (r, .error failure) => .failed r failure
    | (r, .ok none) =>
      .finished { r with events := r.events ++ [.finished r.observations r.propagations] }
    | (r, .ok (some c)) => e.observeAt c r

end CellCollapse.Engine
