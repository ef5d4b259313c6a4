import CellCollapse.Possibilities

set_option autoImplicit false

/-!
# Spaces

A space knows its coordinates, where the state of each cell is kept, and which coordinate a delta
leads to. States live in numbered slots; two coordinates may share a slot, and then they share
their state. A name for coordinates may also stand for no cell at all.
-/
namespace CellCollapse

/-- What a look-up of several entries found, up to the fault that stopped it. An entry is absent
where the space ends. -/
structure Lookup (τ : Type) where
  found : List (Option τ)
  fault : Option Fault

namespace Lookup

variable {τ : Type}

def done : Lookup τ := ⟨[], none⟩

def stop (f : Fault) : Lookup τ := ⟨[], some f⟩

def cons (x : Option τ) (l : Lookup τ) : Lookup τ := ⟨x :: l.found, l.fault⟩

/-- The look-up with every found entry changed. -/
def map {υ : Type} (f : τ → υ) (l : Lookup τ) : Lookup υ := ⟨l.found.map (Option.map f), l.fault⟩

/-- The buffer after the found entries were written into it from the front. A buffer never grows. -/
def overwrite (l : Lookup τ) (buffer : List (Option τ)) : List (Option τ) :=
  l.found.take buffer.length ++ buffer.drop l.found.length

theorem length_overwrite (l : Lookup τ) (buffer : List (Option τ)) :
    (l.overwrite buffer).length = buffer.length := by
  simp only [overwrite, List.length_append, List.length_take, List.length_drop]
  omega

end Lookup

/-- A space of cells whose states are kept in `n` slots. -/
structure Space (κ δ : Type) (n : Nat) where
  coordinates : List κ
  slot : κ → Except Fault (Fin n)
  neighbors : κ → List δ → Lookup κ
  /-- Whether a name stands for no cell. -/
  nowhere : κ → Bool

namespace Space

variable {κ δ : Type} {n : Nat}

/-- The state of a cell. -/
def get {σ : Type} (space : Space κ δ n) (cells : Vector σ n) (c : κ) : Except Fault σ :=
  (space.slot c).map cells.get

/-- The coordinates whose cells have run out of values, in the order of the space. -/
def contradictions {σ : Type} (space : Space κ δ n) (isEmpty : σ → Bool) (cells : Vector σ n) :
    List κ :=
  space.coordinates.filter fun c =>
    match space.get cells c with
    | .ok s => isEmpty s
    | .error _ => false

end Space

end CellCollapse
