import CellCollapse.Fault.Basic

set_option autoImplicit false

/-!
# Possibilities of a cell

The finite set of values that a cell may still take. A cell with one value left and a cell with
none both have an entropy of zero: the first is decided, the second is a contradiction. Of equal
values a set keeps the one that came first.
-/
namespace CellCollapse

/-- What the engine asks of the state of a cell. -/
class CellState (σ : Type) where
  entropy : σ → Int

structure Possibilities (α : Type) [BEq α] where
  toList : List α
  distinct : toList.Pairwise fun a b => (a == b) = false

namespace Possibilities

variable {α : Type} [BEq α]

def empty : Possibilities α := ⟨[], .nil⟩

/-- The set of one value. -/
def only (v : α) : Possibilities α := ⟨[v], List.pairwise_singleton _ _⟩

def contains (s : Possibilities α) (v : α) : Bool := s.toList.any (· == v)

def insert (s : Possibilities α) (v : α) : Possibilities α :=
  if h : s.contains v then s
  else ⟨s.toList ++ [v], by
    rw [List.pairwise_append]
    refine ⟨s.distinct, List.pairwise_singleton _ _, ?_⟩
    intro a ha b hb
    rw [List.mem_singleton] at hb
    subst hb
    have absent : ¬ ∃ x ∈ s.toList, (x == b) = true := by simpa [contains] using h
    exact Bool.eq_false_iff.2 fun e => absent ⟨a, ha, e⟩⟩

def ofList (vs : List α) : Possibilities α := vs.foldl insert empty

/-- Keeps the values that pass a test. -/
def filter (s : Possibilities α) (keep : α → Bool) : Possibilities α :=
  ⟨s.toList.filter keep, s.distinct.filter keep⟩

def size (s : Possibilities α) : Nat := s.toList.length

/-- One less than the number of values, and never below zero. -/
def entropy (s : Possibilities α) : Nat := s.size - 1

instance : CellState (Possibilities α) := ⟨fun s => (s.entropy : Int)⟩

def isEmpty (s : Possibilities α) : Bool := s.toList.isEmpty

/-- The value of a decided cell. -/
def value (s : Possibilities α) : Except Fault α :=
  match s.toList with
  | [v] => .ok v
  | vs => .error (.possibilityCount vs.length)

def value? (s : Possibilities α) : Option α :=
  match s.toList with
  | [v] => some v
  | _ => none

def subset (s t : Possibilities α) : Bool := s.toList.all t.contains

/-- Whether two sets hold the same values, in whatever order. -/
def same (s t : Possibilities α) : Bool := s.size == t.size && s.subset t

/-- Whether none of some values is in a set. -/
def disjoint (vs : List α) (s : Possibilities α) : Bool := !vs.any s.contains

/-- The values sorted by their written form. -/
def sorted [AsValue α] (s : Possibilities α) : List α := sortWritten s.toList

def text [AsValue α] (s : Possibilities α) : String :=
  "HashSetState(" ++ Value.listText (s.sorted.map asValue) ++ ")"

end Possibilities

end CellCollapse
