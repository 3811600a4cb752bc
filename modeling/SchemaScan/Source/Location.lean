/-! # Locations

A location says where in its file a position lies. The line of an unknown location is 0.
-/
namespace SchemaScan

/-- A resolved position. -/
structure Location where
  filename : String := ""
  /-- The byte offset, counted from 0. -/
  offset : Nat := 0
  /-- The line, counted from 1; 0 where it is not known. -/
  line : Nat := 0
  /-- The column in bytes, counted from 1; 0 where it is not known. -/
  column : Nat := 0
  deriving DecidableEq, Repr

namespace Location

/-- The location of a position that no document covers. -/
def unknown : Location := {}

/-- The line is known. -/
def isKnown (l : Location) : Bool := 0 < l.line

/-- The known parts of a location, from `file:line:column` down to a lone dash. -/
def render (l : Location) : String :=
  if l.isKnown then
    (if l.filename = "" then "" else l.filename ++ ":") ++ toString l.line ++
      (if l.column = 0 then "" else ":" ++ toString l.column)
  else if l.filename = "" then "-"
  else l.filename

end Location

end SchemaScan
