import CellCollapse.Assoc
import CellCollapse.Space

set_option autoImplicit false

/-!
# Graphs

A space given by listing its nodes and the labelled edges between them. Nodes hold slots of states,
in the order in which they were listed. The null value stands for no node: an edge to it leads
nowhere.
-/
namespace CellCollapse

structure Graph (κ δ : Type) [BEq κ] [BEq δ] (σ : Type) where
  nodes : Assoc κ σ
  edges : Assoc (κ × δ) (Option κ)

namespace Graph

variable {κ δ : Type} [BEq κ] [BEq δ] {σ : Type}

/-- Whether a name stands for no node. -/
def nowhere [AsValue κ] (c : κ) : Bool := (asValue c).isNull

/-- The graph of some nodes and edges; an edge leads from a node along a label to a node. -/
def ofLists [AsValue κ] (nodes : List (κ × σ)) (edges : List (κ × δ × κ)) : Graph κ δ σ :=
  ⟨.ofList nodes, .ofList (edges.map fun e =>
    ((e.1, e.2.1), if nowhere e.2.2 then none else some e.2.2))⟩

/-- The graph with every entry changed. -/
def map {τ : Type} (f : σ → τ) (g : Graph κ δ σ) : Graph κ δ τ := ⟨g.nodes.map f, g.edges⟩

def coordinates (g : Graph κ δ σ) : List κ := g.nodes.keys

def get [AsValue κ] (g : Graph κ δ σ) (c : κ) : Except Fault σ :=
  match g.nodes.get? c with
  | some s => .ok s
  | none => .error (.unknownKey (asValue c))

def set [AsValue κ] (g : Graph κ δ σ) (c : κ) (s : σ) : Except Fault (Graph κ δ σ) :=
  (g.get c).map fun _ => { g with nodes := g.nodes.insert c s }

/-- Looks up the neighbors along some labels, for a buffer with the given room. -/
def neighbors (g : Graph κ δ σ) (c : κ) : List δ → (room : Nat) → Lookup κ
  | [], _ => .done
  | _ :: _, 0 => .stop .noRoom
  | d :: ds, room + 1 => .cons (g.edges.get? (c, d)).join (g.neighbors c ds room)

/-- The space of a graph whose nodes hold slots. -/
def space [AsValue κ] {n : Nat} (g : Graph κ δ (Fin n)) : Space κ δ n where
  coordinates := g.coordinates
  slot := g.get
  neighbors c ds := g.neighbors c ds ds.length
  nowhere := nowhere

end Graph

end CellCollapse
