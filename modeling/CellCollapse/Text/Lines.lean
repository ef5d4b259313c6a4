set_option autoImplicit false

/-!
# Lines of text

A line ends at a line feed, a carriage return or both together, at any other line or page break, and
at the separators of files, groups, records, lines and paragraphs.
-/
namespace CellCollapse.Text

/-- The characters that end a line. -/
def lineEnds : List Nat :=
  [0x0A, 0x0B, 0x0C, 0x0D, 0x1C, 0x1D, 0x1E, 0x85, 0x2028, 0x2029]

def endsLine (c : Char) : Bool := lineEnds.contains c.toNat

/-- Splits at every line end; a carriage return and a line feed after it are one. -/
def splitLines : List Char → List (List Char)
  | [] => [[]]
  | '\r' :: '\n' :: cs => [] :: splitLines cs
  | c :: cs =>
    if endsLine c then [] :: splitLines cs
    else
      match splitLines cs with
      | [] => [[c]]
      | l :: ls => (c :: l) :: ls

/-- The lines of a text that is printed with a line feed behind it. -/
def printedLines (s : String) : List String :=
  (splitLines (s.toList ++ ['\n'])).dropLast.map String.ofList

end CellCollapse.Text
