import CellCollapse.Engine.Collapse
import CellCollapse.Memory.Basic

set_option autoImplicit false

/-!
# Engines on references

A run as in `Engine`, state by state: the cells of the space and the buffer for snapshots hold
references, and a look around clones the states of the neighbors into the buffer. The buffer is made
once and used again for every call.
-/
namespace CellCollapse

structure RefEngine (σ κ δ ρ : Type) (n : Nat) where
  space : Space κ δ n
  rule : RefRule σ δ ρ n
  pick : TieBreak ρ

structure RefRun (σ κ ρ : Type) (n : Nat) where
  memory : Memory σ n
  context : ρ
  queue : List κ
  unresolved : List κ
  candidates : List κ
  neighbors : List (Option κ)
  snapshots : List (Option Ref)
  observations : Nat
  propagations : Nat
  events : List (Event κ)

inductive RefOutcome (σ κ ρ : Type) (n : Nat) where
  | running (run : RefRun σ κ ρ n)
  | finished (run : RefRun σ κ ρ n)
  | failed (run : RefRun σ κ ρ n) (failure : Failure κ)

/-- Clones the states at some coordinates, one after the other. -/
def Memory.clones {σ κ δ : Type} {n : Nat} (space : Space κ δ n) (m : Memory σ n) :
    List (Option κ) → Memory σ n × Lookup Ref
  | [] => (m, .done)
  | none :: ns =>
    let (m, refs) := m.clones space ns
    (m, .cons none refs)
  | some c :: ns =>
    match space.slot c with
    | .error f => (m, .stop f)
    | .ok i =>
      let (m, ref) := m.clone i
      let (m, refs) := m.clones space ns
      (m, .cons (some ref) refs)

namespace RefEngine

variable {σ κ δ ρ : Type} {n : Nat}

def fresh (e : RefEngine σ κ δ ρ n) (cells : Vector σ n) (context : ρ) : RefRun σ κ ρ n where
  memory := .ofCells cells
  context := context
  queue := []
  unresolved := []
  candidates := []
  neighbors := List.replicate e.rule.offsets.length none
  snapshots := List.replicate e.rule.offsets.length none
  observations := 0
  propagations := 0
  events := []

/-- Fills the buffers with the neighbors of a cell and clones of their states. -/
def lookAround (e : RefEngine σ κ δ ρ n) (c : κ) (r : RefRun σ κ ρ n) :
    RefRun σ κ ρ n × Option Fault :=
  let around := e.space.neighbors c e.rule.offsets
  let r := { r with neighbors := around.overwrite r.neighbors }
  match around.fault with
  | some f => (r, some f)
  | none =>
    let (memory, refs) := r.memory.clones e.space r.neighbors
    ({ r with memory := memory, snapshots := refs.overwrite r.snapshots }, refs.fault)

def adopt (r : RefRun σ κ ρ n) (effect : Effect σ ρ n) : RefRun σ κ ρ n :=
  { r with memory := effect.memory, context := effect.context }

variable [CellState σ]

def isOpen (e : RefEngine σ κ δ ρ n) (m : Memory σ n) (c : κ) : Bool :=
  match e.space.slot c with
  | .ok i => CellState.entropy (m.cell i) != 0
  | .error _ => false

def propagateAt (e : RefEngine σ κ δ ρ n) (c : κ) (r : RefRun σ κ ρ n) : RefOutcome σ κ ρ n :=
  match e.space.slot c with
  | .error f => .failed r (.raised f)
  | .ok i =>
    let before := CellState.entropy (r.memory.cell i)
    if before = 0 then .running r
    else
      match e.lookAround c r with
      | (r, some f) => .failed r (.raised f)
      | (r, none) =>
        let effect := e.rule.collapse i.val r.snapshots r.memory r.context
        let r := adopt r effect
        match effect.fault with
        | some f => .failed r (.raised f)
        | none =>
          let r := { r with propagations := r.propagations + 1 }
          if CellState.entropy (r.memory.cell i) < before then
            .running { r with
              queue := r.queue ++ (r.neighbors.filterMap id).filter (e.isOpen r.memory) }
          else .running r

def observeAt (e : RefEngine σ κ δ ρ n) (c : κ) (r : RefRun σ κ ρ n) : RefOutcome σ κ ρ n :=
  match e.lookAround c { r with queue := [] } with
  | (r, some f) => .failed r (.raised f)
  | (r, none) =>
    match e.space.slot c with
    | .error f => .failed r (.raised f)
    | .ok i =>
      let effect := e.rule.observe i.val r.snapshots r.memory r.context
      let r := adopt r effect
      match effect.fault with
      | some f => .failed r (.raised f)
      | none =>
        let r := { r with observations := r.observations + 1 }
        let after := CellState.entropy (r.memory.cell i)
        if after = 0 then
          .running { r with
            events := r.events ++ [.observed c]
            queue := r.neighbors.filterMap id }
        else .failed r (.unsettled c after)

def select (e : RefEngine σ κ δ ρ n) (r : RefRun σ κ ρ n) :
    RefRun σ κ ρ n × Except (Failure κ) (Option κ) :=
  let chosen := e.space.select e.pick r.memory.cells r.unresolved r.context
  ({ r with
    candidates := chosen.candidates
    unresolved := chosen.unresolved
    context := chosen.context }, chosen.choice)

def step (e : RefEngine σ κ δ ρ n) (r : RefRun σ κ ρ n) : RefOutcome σ κ ρ n :=
  match r.queue with
  | c :: rest => e.propagateAt c { r with queue := rest }
  | [] =>
    match e.select r with
    | (r, .error failure) => .failed r failure
    | (r, .ok none) =>
      .finished { r with events := r.events ++ [.finished r.observations r.propagations] }
    | (r, .ok (some c)) => e.observeAt c r

def start [BEq κ] (e : RefEngine σ κ δ ρ n) (r : RefRun σ κ ρ n) : RefOutcome σ κ ρ n :=
  let (rs, fault) := Engine.readings e.space r.memory.cells e.space.coordinates
  let found := (rs.filter fun q => decide (0 < q.2)).map Prod.fst
  let r := { r with unresolved := found.foldl Engine.addNew r.unresolved }
  match fault with
  | some f => .failed r (.raised f)
  | none =>
    .running { r with
      events := r.events ++ [.started r.unresolved.length e.rule.offsets.length]
      queue := r.queue ++ r.unresolved }

def potential (e : RefEngine σ κ δ ρ n) (r : RefRun σ κ ρ n) : Nat :=
  r.queue.length + (e.rule.offsets.length + 1) * Engine.totalEntropy r.memory.cells + 1

def advance (e : RefEngine σ κ δ ρ n) : Nat → RefRun σ κ ρ n → RefOutcome σ κ ρ n
  | 0, r => .running r
  | steps + 1, r =>
    match e.step r with
    | .running r => e.advance steps r
    | outcome => outcome

def collapse [BEq κ] (e : RefEngine σ κ δ ρ n) (cells : Vector σ n) (context : ρ) :
    RefOutcome σ κ ρ n :=
  match e.start (e.fresh cells context) with
  | .running r => e.advance (e.potential r) r
  | outcome => outcome

end RefEngine

end CellCollapse
