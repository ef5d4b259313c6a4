import CellCollapse.Rule.Table

set_option autoImplicit false

/-!
# States by reference

A state is an object that others hold references to. What is written through one reference is read
through every other reference to the same state; a clone is a new state that starts with the same
value. A rule is handed references, to a cell and to one snapshot per offset, and may read and write
whatever it can reach.
-/
namespace CellCollapse

abbrev Ref := Nat

/-- All states made so far. The first `n` of them are those of the cells of a space. -/
structure Memory (σ : Type) (n : Nat) where
  states : List σ
  room : n ≤ states.length

namespace Memory

variable {σ : Type} {n : Nat}

def ofCells (cells : Vector σ n) : Memory σ n :=
  ⟨cells.toList, Nat.le_of_eq (Vector.length_toList).symm⟩

def read? (m : Memory σ n) (ref : Ref) : Option σ := m.states[ref]?

def values (m : Memory σ n) (refs : List (Option Ref)) : List (Option σ) :=
  refs.map fun o => o.bind m.read?

def cell (m : Memory σ n) (i : Fin n) : σ := m.states.get (i.castLE m.room)

def cells (m : Memory σ n) : Vector σ n := .ofFn m.cell

def write (m : Memory σ n) (ref : Ref) (s : σ) : Memory σ n :=
  ⟨m.states.set ref s, Nat.le_trans m.room (Nat.le_of_eq List.length_set.symm)⟩

/-- Makes a new state with the value of a cell. -/
def clone (m : Memory σ n) (i : Fin n) : Memory σ n × Ref :=
  (⟨m.states ++ [m.cell i], Nat.le_trans m.room (by simp)⟩, m.states.length)

section Sets

variable {α : Type} [BEq α]

def possibilities (m : Memory (Possibilities α) n) (ref : Ref) : Possibilities α :=
  (m.read? ref).getD .empty

/-- Gives a state those of its values that pass a test. -/
def retain (m : Memory (Possibilities α) n) (ref : Ref) (keep : α → Bool) :
    Memory (Possibilities α) n :=
  m.write ref ((m.possibilities ref).filter keep)

/-- Gives a state a single value. -/
def collapseTo (m : Memory (Possibilities α) n) (ref : Ref) (v : α) :
    Memory (Possibilities α) n :=
  m.write ref (.only v)

end Sets

end Memory

/-- What a call leaves behind; with a fault, what it had done up to then. -/
structure Effect (σ ρ : Type) (n : Nat) where
  memory : Memory σ n
  context : ρ
  fault : Option Fault

/-- A rule that works on references. -/
structure RefRule (σ δ ρ : Type) (n : Nat) where
  offsets : List δ
  collapse : Ref → List (Option Ref) → Memory σ n → ρ → Effect σ ρ n
  observe : Ref → List (Option Ref) → Memory σ n → ρ → Effect σ ρ n

namespace Table

variable {α δ ρ : Type} {n : Nat} [BEq α]

def collapseRef (t : Table α δ) (cell : Ref) (neighbors : List (Option Ref))
    (m : Memory (Possibilities α) n) (context : ρ) : Effect (Possibilities α) ρ n :=
  let ns := m.values neighbors
  match t.firstFault? ns (m.possibilities cell).toList with
  | some f => ⟨m, context, some f⟩
  | none => ⟨m.retain cell (t.keeps ns), context, none⟩

def observeRef [AsValue α] (t : Table α δ) (choose : Chooser ρ) (cell : Ref)
    (neighbors : List (Option Ref)) (m : Memory (Possibilities α) n) (context : ρ) :
    Effect (Possibilities α) ρ n :=
  let ns := m.values neighbors
  let s := m.possibilities cell
  match t.firstFault? ns (t.candidates s) with
  | some f => ⟨m, context, some f⟩
  | none =>
    match t.options s ns with
    | [] => ⟨m, context, none⟩
    | v :: vs =>
      match choose (t.weightOr v) (vs.map t.weightOr) context with
      | (.error f, context) => ⟨m, context, some f⟩
      | (.ok i, context) =>
        let settled := (v :: vs).get (i.cast (by rw [List.length_map, List.length_cons]))
        ⟨m.collapseTo cell settled, context, none⟩

/-- The rule of a table, by reference. -/
def refRule [AsValue α] (t : Table α δ) (choose : Chooser ρ) :
    RefRule (Possibilities α) δ ρ n where
  offsets := t.offsets
  collapse := t.collapseRef
  observe := t.observeRef choose

end Table

end CellCollapse
