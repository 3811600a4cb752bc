/-! # Layout

Spaces, tabs and line breaks separate tokens. A carriage return and a line feed both end a line,
but only a line feed is counted.
-/
namespace SchemaScan

/-- The four characters of layout. -/
def isSpace (c : Char) : Bool := c = ' ' || c = '\t' || c = '\r' || c = '\n'

/-- Layout within a line. -/
def isBlank (c : Char) : Bool := c = ' ' || c = '\t'

/-- The characters at which a line ends. -/
def isLineEnd (c : Char) : Bool := c = '\r' || c = '\n'

theorem isSpace_eq (c : Char) : isSpace c = (isBlank c || isLineEnd c) := by
  simp [isSpace, isBlank, isLineEnd, Bool.or_assoc]

end SchemaScan
