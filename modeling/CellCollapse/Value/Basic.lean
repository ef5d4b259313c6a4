import CellCollapse.Number.Binary64

set_option autoImplicit false

/-!
# Values

The values that cells choose between: nothing, truth values, integers, binary numbers, texts, and
tuples of values. Two values are the same if they have the same `Value.key`: numbers count by the
number that they stand for, whatever their form (`true`, `1` and `1.0` are one value), and tuples
item by item. Not-a-number stands for nothing: it is the same only as the occurrence that it is, and
marks tell occurrences apart. Sameness is an equivalence, since keys are compared by equality.
-/
namespace CellCollapse

inductive Value where
  | null
  | bool (b : Bool)
  | int (n : Int)
  | float (x : Binary64) (mark : Nat)
  | text (s : String)
  | tuple (items : List Value)
deriving Inhabited

/-- What a value is compared by. A tuple is the chain of its items' keys. -/
inductive Key where
  | null
  | number (q : Rat)
  | infinite (negative : Bool)
  | notANumber (mark : Nat)
  | text (s : String)
  | nil
  | cons (head tail : Key)
deriving DecidableEq

namespace Value

def floatKey (x : Binary64) (mark : Nat) : Key :=
  match x.reading with
  | .finite negative m e => .number (Binary64.rational negative m e)
  | .infinite negative => .infinite negative
  | .notANumber => .notANumber mark

mutual

def key : Value → Key
  | .null => .null
  | .bool b => .number (if b then 1 else 0)
  | .int n => .number (n : Rat)
  | .float x mark => floatKey x mark
  | .text s => .text s
  | .tuple items => keys items

/-- The chain of the keys of a list of values. -/
def keys : List Value → Key
  | [] => .nil
  | v :: vs => .cons (key v) (keys vs)

end

instance : BEq Value where
  beq v w := decide (v.key = w.key)

theorem beq_eq_decide (v w : Value) : (v == w) = decide (v.key = w.key) := rfl

theorem beq_iff_key (v w : Value) : (v == w) = true ↔ v.key = w.key := by
  simp [beq_eq_decide]

instance : EquivBEq Value where
  rfl := by simp [beq_iff_key]
  symm h := by
    rw [beq_iff_key] at *
    exact h.symm
  trans h₁ h₂ := by
    rw [beq_iff_key] at *
    exact h₁.trans h₂

/-- The value of a binary number that is not told apart from other occurrences. -/
def ofBinary (x : Binary64) : Value := .float x 0

def isNull : Value → Bool
  | .null => true
  | _ => false

def isBool : Value → Bool
  | .bool _ => true
  | _ => false

def isFloat : Value → Bool
  | .float _ _ => true
  | _ => false

def isText : Value → Bool
  | .text _ => true
  | _ => false

/-- The integer that an integer or a truth value stands for. -/
def whole? : Value → Option Int
  | .bool b => some (if b then 1 else 0)
  | .int n => some n
  | _ => none

/-- Integers, truth values and binary numbers. -/
def isNumber (v : Value) : Bool := v.whole?.isSome || v.isFloat

/-- The name of the type of a value. -/
def typeName : Value → String
  | .null => "NoneType"
  | .bool _ => "bool"
  | .int _ => "int"
  | .float _ _ => "float"
  | .text _ => "str"
  | .tuple _ => "tuple"

end Value

/-- Types whose elements can be shown as values. -/
class AsValue (α : Type) where
  asValue : α → Value

export AsValue (asValue)

instance : AsValue Value := ⟨id⟩
instance : AsValue Int := ⟨.int⟩
instance : AsValue Nat := ⟨fun n => .int (n : Int)⟩
instance : AsValue Bool := ⟨.bool⟩
instance : AsValue String := ⟨.text⟩

/-- A list is shown as the tuple of its items. -/
instance instAsValueList {α : Type} [AsValue α] : AsValue (List α) :=
  ⟨fun xs => .tuple (xs.map asValue)⟩

end CellCollapse
