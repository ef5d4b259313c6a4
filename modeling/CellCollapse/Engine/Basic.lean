import CellCollapse.Random.Choice
import CellCollapse.Rule.Basic

set_option autoImplicit false

/-!
# Engines and runs

An engine is a space with a rule and a way to break ties. Its run keeps the states of the cells, a
queue of coordinates whose cells may have to react, and the coordinates still undecided. The
buffers for neighbors and their snapshots, the last candidates and the counters belong to the run,
because a later look at it shows them.
-/
namespace CellCollapse

/-- What is reported in the course of a run. -/
inductive Event (κ : Type) where
  | started (unresolved directions : Nat)
  | observed (c : κ)
  | finished (observations propagations : Nat)

/-- Why a run failed: a rule or space raised a fault, an observation left its cell undecided, or a
coordinate was to be taken out of a table that does not hold it. -/
inductive Failure (κ : Type) where
  | raised (fault : Fault)
  | unsettled (c : κ) (entropy : Int)
  | missing (c : κ)

namespace Failure

variable {κ : Type} [AsValue κ]

def kind : Failure κ → Kind
  | .raised fault => fault.kind
  | .unsettled _ _ => .observation
  | .missing _ => .key

def message : Failure κ → String
  | .raised fault => fault.message
  | .unsettled c entropy =>
    "Observing the cell at " ++ written c ++ " left it with an entropy of " ++ toString entropy
  | .missing c => written c

end Failure

structure Engine (σ κ δ ρ : Type) (n : Nat) where
  space : Space κ δ n
  rule : Rule σ δ ρ
  pick : TieBreak ρ

structure Run (σ κ ρ : Type) (n : Nat) where
  cells : Vector σ n
  context : ρ
  queue : List κ
  unresolved : List κ
  candidates : List κ
  neighbors : List (Option κ)
  snapshots : List (Option σ)
  observations : Nat
  propagations : Nat
  events : List (Event κ)

/-- A run before anything was done, with room for some neighbors. -/
def Run.blank {σ κ ρ : Type} {n : Nat} (room : Nat) (cells : Vector σ n) (context : ρ) :
    Run σ κ ρ n where
  cells := cells
  context := context
  queue := []
  unresolved := []
  candidates := []
  neighbors := List.replicate room none
  snapshots := List.replicate room none
  observations := 0
  propagations := 0
  events := []

/-- The run taken up again on present cells and context, with an empty list of events. -/
def Run.resume {σ κ ρ τ : Type} {m n : Nat} (r : Run σ κ ρ m) (cells : Vector σ n) (context : τ) :
    Run σ κ τ n where
  cells := cells
  context := context
  queue := r.queue
  unresolved := r.unresolved
  candidates := r.candidates
  neighbors := r.neighbors
  snapshots := r.snapshots
  observations := r.observations
  propagations := r.propagations
  events := []

/-- The state of a run after some work: it goes on, it has come to its end, or it failed. -/
inductive Outcome (σ κ ρ : Type) (n : Nat) where
  | running (run : Run σ κ ρ n)
  | finished (run : Run σ κ ρ n)
  | failed (run : Run σ κ ρ n) (failure : Failure κ)

namespace Outcome

variable {σ κ ρ : Type} {n : Nat}

def run : Outcome σ κ ρ n → Run σ κ ρ n
  | .running r => r
  | .finished r => r
  | .failed r _ => r

end Outcome

namespace Engine

variable {σ κ δ ρ : Type} {n : Nat}

/-- A run on some cells before anything was done. -/
def fresh (e : Engine σ κ δ ρ n) (cells : Vector σ n) (context : ρ) : Run σ κ ρ n :=
  .blank e.rule.offsets.length cells context

end Engine

end CellCollapse
