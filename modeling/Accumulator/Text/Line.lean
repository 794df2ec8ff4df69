/-! # Lines of a text

A line ends with a line feed, or with a carriage return and a line feed. The last piece of a
text has no line feed behind it: it is a line if it is not empty, and it keeps a carriage
return at its end.
-/

namespace Accumulator.Text

set_option autoImplicit false

def dropReturn (piece : List Char) : List Char :=
  if piece.getLast? = some '\r' then piece.dropLast else piece

/-- The pieces of a text between its line feeds; there is always a last one. -/
def pieces (text : String) : List (List Char) :=
  text.toList.splitOnP (· == '\n')

/-- The lines of a text, without their ends. -/
def lines (text : String) : List String :=
  let ended := (pieces text).dropLast.map dropReturn
  let unended := (pieces text).getLast?.toList.filter fun piece => !piece.isEmpty
  (ended ++ unended).map String.ofList

end Accumulator.Text
