import CellCollapse.Assoc
import CellCollapse.Random.Choice
import CellCollapse.Rule.Basic
import CellCollapse.Value.Number

set_option autoImplicit false

/-!
# Table rules

A table lists for every known value, offset by offset, the values that the neighbor there may
take. A value stays possible as long as every present neighbor still has a value allowed next to
it; a value without an entry is refused next to any neighbor. An observation chooses by weight
among the values that stay possible, or among all values of the cell if none does.
-/
namespace CellCollapse

structure Entry (α : Type) where
  value : α
  /-- The allowed neighbors, one list per offset. -/
  allowed : List (List α)
  weight : Binary64

structure Table (α δ : Type) [BEq α] where
  offsets : List δ
  entries : List (Entry α)
  width : ∀ e ∈ entries, e.allowed.length = offsets.length
  distinct : entries.Pairwise fun e f => (e.value == f.value) = false
  positive : ∀ e ∈ entries, e.weight.isPositive = true

/-- The weight of a value that has none of its own. -/
def defaultWeight : Binary64 := .one

/-- Puts a weight to every row; the first weight that cannot be read is the fault. -/
def weighEntries {α : Type} (weigh : α → Except Fault Binary64) :
    List (α × List (List α)) → Except Fault (List (Entry α))
  | [] => .ok []
  | (v, rows) :: ps =>
    match weigh v with
    | .error f => .error f
    | .ok w =>
      match weighEntries weigh ps with
      | .error f => .error f
      | .ok es => .ok (⟨v, rows, w⟩ :: es)

/-- Weighing changes neither the values nor their rows. -/
theorem weighEntries_rows {α : Type} {weigh : α → Except Fault Binary64}
    {ps : List (α × List (List α))} {es : List (Entry α)} (h : weighEntries weigh ps = .ok es) :
    es.map (fun e => (e.value, e.allowed)) = ps := by
  induction ps generalizing es with
  | nil =>
    cases h
    rfl
  | cons p ps ih =>
    obtain ⟨v, rows⟩ := p
    simp only [weighEntries] at h
    cases hw : weigh v with
    | error f => simp [hw] at h
    | ok w =>
      cases hs : weighEntries weigh ps with
      | error f => simp [hw, hs] at h
      | ok rest =>
        simp only [hw, hs, Except.ok.injEq] at h
        subst h
        simp [ih hs]

namespace Table

variable {α δ ρ : Type} [BEq α]

/-- The weight of a value as it was given, or the default. -/
def readWeight (weights : Assoc α Value) (v : α) : Except Fault Binary64 :=
  match weights.get? v with
  | some w => w.toWeight
  | none => .ok defaultWeight

/-- The table of weighed entries, unless a weight is not above zero. -/
def ofEntries [AsValue α] (offsets : List δ) (es : List (Entry α))
    (width : ∀ e ∈ es, e.allowed.length = offsets.length)
    (distinct : es.Pairwise fun e f => (e.value == f.value) = false) :
    Except Fault (Table α δ) :=
  if h : ∀ e ∈ es, e.weight.isPositive = true then .ok ⟨offsets, es, width, distinct, h⟩
  else .error (.nonPositiveWeights
    ((es.filter fun e => !e.weight.isPositive).map fun e => asValue e.value))

/-- Builds a table. Rows are checked first, then that the weights are for known values, then the
weights themselves. -/
def make [AsValue α] (offsets : List δ) (allowed : Assoc α (List (List α)))
    (weights : Assoc α Value) : Except Fault (Table α δ) :=
  match hw : allowed.pairs.find? fun p => p.2.length != offsets.length with
  | some p => .error (.rowWidth (asValue p.1) p.2.length offsets.length)
  | none =>
    match weights.keys.filter fun v => !allowed.contains v with
    | v :: vs => .error (.unknownWeights ((v :: vs).map asValue))
    | [] =>
      match he : weighEntries (readWeight weights) allowed.pairs with
      | .error f => .error f
      | .ok es =>
        ofEntries offsets es
          (by
            intro e hes
            have hmem : (e.value, e.allowed) ∈ allowed.pairs := by
              rw [← weighEntries_rows he]
              exact List.mem_map_of_mem hes
            simpa using List.find?_eq_none.1 hw _ hmem)
          (by
            have h := allowed.distinct
            rw [← weighEntries_rows he, List.pairwise_map] at h
            exact h)

def values (t : Table α δ) : List α := t.entries.map Entry.value

def entry? (t : Table α δ) (v : α) : Option (Entry α) := t.entries.find? fun e => e.value == v

def knows (t : Table α δ) (v : α) : Bool := (t.entry? v).isSome

/-- The weight of a known value. -/
def weight [AsValue α] (t : Table α δ) (v : α) : Except Fault Binary64 :=
  match t.entry? v with
  | some e => .ok e.weight
  | none => .error (.unknownKey (asValue v))

/-- The weight that an observation gives to a value. -/
def weightOr (t : Table α δ) (v : α) : Binary64 := (t.entry? v).elim defaultWeight Entry.weight

/-- Goes through the neighbors beside the allowed lists. The first neighbor without an allowed
value decides; a neighbor beyond the lists is a fault. -/
def supported : (allowed : List (List α)) → List (Option (Possibilities α)) → Except Fault Bool
  | _, [] => .ok true
  | allowed, none :: ns => supported allowed.tail ns
  | [], some _ :: _ => .error .missingOffset
  | row :: allowed, some s :: ns =>
    if Possibilities.disjoint row s then .ok false else supported allowed ns

/-- Whether every present neighbor has a value that is allowed next to `v`. -/
def admits (t : Table α δ) (v : α) (ns : List (Option (Possibilities α))) : Except Fault Bool :=
  match t.entry? v with
  | some e => supported e.allowed ns
  | none => .ok (ns.all Option.isNone)

/-- The values that `admits` accepts. -/
def keeps (t : Table α δ) (ns : List (Option (Possibilities α))) (v : α) : Bool :=
  match t.admits v ns with
  | .ok b => b
  | .error _ => false

/-- The first fault that `admits` meets on some values. -/
def firstFault? (t : Table α δ) (ns : List (Option (Possibilities α))) (vs : List α) :
    Option Fault :=
  vs.findSome? fun v =>
    match t.admits v ns with
    | .ok _ => none
    | .error f => some f

def collapse (t : Table α δ) (cell : Possibilities α) (ns : List (Option (Possibilities α)))
    (context : ρ) : Reply (Possibilities α) ρ :=
  match t.firstFault? ns cell.toList with
  | some f => ⟨cell, ns, context, some f⟩
  | none => ⟨cell.filter (t.keeps ns), ns, context, none⟩

/-- The values of a cell in the order of choice: known ones as the table has them, then unknown
ones by their written form. -/
def candidates [AsValue α] (t : Table α δ) (cell : Possibilities α) : List α :=
  t.values.filter cell.contains ++ sortWritten (cell.toList.filter fun v => !t.knows v)

/-- The candidates that the neighbors support, or all of them if none is supported. -/
def options [AsValue α] (t : Table α δ) (cell : Possibilities α)
    (ns : List (Option (Possibilities α))) : List α :=
  match (t.candidates cell).filter (t.keeps ns) with
  | [] => t.candidates cell
  | v :: vs => v :: vs

def observe [AsValue α] (t : Table α δ) (choose : Chooser ρ) (cell : Possibilities α)
    (ns : List (Option (Possibilities α))) (context : ρ) : Reply (Possibilities α) ρ :=
  match t.firstFault? ns (t.candidates cell) with
  | some f => ⟨cell, ns, context, some f⟩
  | none =>
    match t.options cell ns with
    | [] => ⟨cell, ns, context, none⟩
    | v :: vs =>
      match choose (t.weightOr v) (vs.map t.weightOr) context with
      | (.error f, context) => ⟨cell, ns, context, some f⟩
      | (.ok i, context) =>
        ⟨.only ((v :: vs).get (i.cast (by simp))), ns, context, none⟩

/-- The rule of a table and a way to choose. -/
def rule [AsValue α] (t : Table α δ) (choose : Chooser ρ) : Rule (Possibilities α) δ ρ where
  offsets := t.offsets
  collapse := t.collapse
  observe := t.observe choose

end Table

end CellCollapse
