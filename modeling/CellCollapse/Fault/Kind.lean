set_option autoImplicit false

/-!
# Kinds of fault

Every fault has a kind, and a kind is a case of more general ones. The kinds of this library are
all cases of `Kind.collapse`; two of them are also cases of a general kind, so that a caller may
treat a coordinate fault as any index fault and an invalid rule as any bad value.
-/
namespace CellCollapse

inductive Kind where
  | top
  | exception
  | arithmetic
  | overflow
  | attribute
  | lookup
  | index
  | key
  | memory
  | runtime
  | stop
  | type
  | value
  | collapse
  | observation
  | invalidRule
  | coordinate
  | unresolvedState
deriving DecidableEq

namespace Kind

def name : Kind → String
  | .top => "BaseException"
  | .exception => "Exception"
  | .arithmetic => "ArithmeticError"
  | .overflow => "OverflowError"
  | .attribute => "AttributeError"
  | .lookup => "LookupError"
  | .index => "IndexError"
  | .key => "KeyError"
  | .memory => "MemoryError"
  | .runtime => "RuntimeError"
  | .stop => "StopIteration"
  | .type => "TypeError"
  | .value => "ValueError"
  | .collapse => "WFCError"
  | .observation => "ObservationError"
  | .invalidRule => "InvalidRuleError"
  | .coordinate => "CoordinateError"
  | .unresolvedState => "UnresolvedStateError"

def all : List Kind :=
  [.top, .exception, .arithmetic, .overflow, .attribute, .lookup, .index, .key, .memory, .runtime,
    .stop, .type, .value, .collapse, .observation, .invalidRule, .coordinate, .unresolvedState]

def ofName? (s : String) : Option Kind := all.find? fun k => k.name == s

/-- The kinds that a kind is a case of, itself first. -/
def ancestors : Kind → List Kind
  | .top => [.top]
  | .exception => [.exception, .top]
  | .arithmetic => [.arithmetic, .exception, .top]
  | .overflow => [.overflow, .arithmetic, .exception, .top]
  | .attribute => [.attribute, .exception, .top]
  | .lookup => [.lookup, .exception, .top]
  | .index => [.index, .lookup, .exception, .top]
  | .key => [.key, .lookup, .exception, .top]
  | .memory => [.memory, .exception, .top]
  | .runtime => [.runtime, .exception, .top]
  | .stop => [.stop, .exception, .top]
  | .type => [.type, .exception, .top]
  | .value => [.value, .exception, .top]
  | .collapse => [.collapse, .exception, .top]
  | .observation => [.observation, .collapse, .exception, .top]
  | .invalidRule => [.invalidRule, .collapse, .value, .exception, .top]
  | .coordinate => [.coordinate, .collapse, .index, .lookup, .exception, .top]
  | .unresolvedState => [.unresolvedState, .collapse, .exception, .top]

def isCaseOf (k general : Kind) : Bool := k.ancestors.contains general

end Kind

end CellCollapse
