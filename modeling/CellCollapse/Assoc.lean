set_option autoImplicit false

/-!
# Association lists in insertion order

A map from keys to entries that remembers the order in which its keys came. Keys are told apart by
`==`; a key that comes again keeps its first form and its place and takes the later entry.
-/
namespace CellCollapse

structure Assoc (α β : Type) [BEq α] where
  pairs : List (α × β)
  distinct : pairs.Pairwise fun p q => (p.1 == q.1) = false

namespace Assoc

variable {α β : Type} [BEq α]

def empty : Assoc α β := ⟨[], .nil⟩

def keys (m : Assoc α β) : List α := m.pairs.map Prod.fst

def contains (m : Assoc α β) (k : α) : Bool := m.pairs.any fun p => p.1 == k

def get? (m : Assoc α β) (k : α) : Option β := (m.pairs.find? fun p => p.1 == k).map Prod.snd

/-- Replaces the entry of every key equal to `k`. -/
def replace (m : Assoc α β) (k : α) (b : β) : Assoc α β :=
  ⟨m.pairs.map fun p => if p.1 == k then (p.1, b) else p, by
    rw [List.pairwise_map]
    refine m.distinct.imp ?_
    intro p q h
    have fst_eq : ∀ r : α × β, (if r.1 == k then (r.1, b) else r).1 = r.1 := by
      intro r
      split <;> rfl
    rw [fst_eq, fst_eq]
    exact h⟩

def insert (m : Assoc α β) (k : α) (b : β) : Assoc α β :=
  if h : m.contains k then m.replace k b
  else ⟨m.pairs ++ [(k, b)], by
    rw [List.pairwise_append]
    refine ⟨m.distinct, by simp, ?_⟩
    intro p hp q hq
    rw [List.mem_singleton] at hq
    subst hq
    have absent : ¬ ∃ r ∈ m.pairs, (r.1 == k) = true := by simpa [contains] using h
    exact Bool.eq_false_iff.2 fun e => absent ⟨p, hp, e⟩⟩

/-- The map of a list of pairs; of two pairs with equal keys the later one gives the entry. -/
def ofList (ps : List (α × β)) : Assoc α β := ps.foldl (fun m p => m.insert p.1 p.2) empty

/-- Changes every entry. -/
def map {γ : Type} (f : β → γ) (m : Assoc α β) : Assoc α γ :=
  ⟨m.pairs.map fun p => (p.1, f p.2), by
    rw [List.pairwise_map]
    exact m.distinct⟩

/-- Adds an entry only if its key is new. -/
def insertNew (m : Assoc α β) (k : α) (b : β) : Assoc α β :=
  if m.contains k then m else m.insert k b

/-- Changes the entry of a key, if there is one. -/
def modify (m : Assoc α β) (k : α) (f : β → β) : Assoc α β :=
  match m.get? k with
  | some b => m.insert k (f b)
  | none => m

end Assoc

end CellCollapse
