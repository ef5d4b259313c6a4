import CellCollapse.Grid.Shape
import CellCollapse.Rule.Table
import CellCollapse.Value.Arithmetic

set_option autoImplicit false

/-!
# Symmetric tables

A table given by adjacencies: a triple allows a value next to another along an offset, and the
other way round along the opposite offset. So every offset needs its negation in the list.
-/
namespace CellCollapse

/-- Offsets that can be turned round. -/
class Reversible (δ : Type) where
  reverse : δ → Except Fault δ

def negate (d : Delta) : Delta := d.map (- ·)

instance : Reversible Delta := ⟨fun d => .ok (negate d)⟩

instance : Reversible (List Value) := ⟨fun d => d.mapM Value.negate⟩

/-- `neighbor` may stand along the offset with number `index` from `value`. -/
structure Adjacency (α : Type) where
  value : α
  index : Value
  neighbor : α

namespace Symmetric

variable {α : Type} [BEq α]

/-- The first place in a list of the opposite of each offset. -/
def opposites {δ : Type} [BEq δ] [AsValue δ] [Reversible δ] (offsets : List δ) :
    List δ → Except Fault (List Nat)
  | [] => .ok []
  | d :: ds =>
    match Reversible.reverse d with
    | .error f => .error f
    | .ok r =>
      if offsets.contains r then (opposites offsets ds).map (offsets.idxOf r :: ·)
      else .error (.noOpposite (asValue d) (asValue r))

/-- The place that an index names among some offsets. -/
def place (count : Nat) (index : Value) : Except Fault Nat :=
  match index.whole? with
  | some i =>
    if 0 ≤ i ∧ i < count then .ok i.toNat else .error (.offsetIndex index count)
  | none =>
    if !index.isNumber then .error (.notOrdered "<=" (.int 0) index)
    else if index.isFrom 0 && index.isBelow count then .error (.listIndex index)
    else .error (.offsetIndex index count)

/-- Allows one more value at a place of a row. -/
def allowAt (i : Nat) (v : α) (rows : List (List α)) : List (List α) :=
  rows.modify i (· ++ [v])

/-- Enters an adjacency and its converse. -/
def enter (opp : List Nat) (i : Nat) (a b : α) (m : Assoc α (List (List α))) :
    Assoc α (List (List α)) :=
  let blank := opp.map fun _ => []
  let known := (m.insertNew a blank).insertNew b blank
  (known.modify a (allowAt i b)).modify b (allowAt (opp.getD i 0) a)

/-- Enters adjacencies one after the other. -/
def enterAll (opp : List Nat) : List (Adjacency α) → Assoc α (List (List α)) →
    Except Fault (Assoc α (List (List α)))
  | [], m => .ok m
  | t :: ts, m =>
    match place opp.length t.index with
    | .error f => .error f
    | .ok i => enterAll opp ts (enter opp i t.value t.neighbor m)

/-- The table of some adjacencies and their converses. -/
def table {δ : Type} [BEq δ] [AsValue δ] [Reversible δ] [AsValue α] (offsets : List δ)
    (triples : List (Adjacency α)) (weights : Assoc α Value) : Except Fault (Table α δ) := do
  let opp ← opposites offsets offsets
  let allowed ← enterAll opp triples .empty
  Table.make offsets allowed weights

end Symmetric

end CellCollapse
