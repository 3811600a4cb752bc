/-! # Line tables

A line table lists the offsets at which the known lines of a document start. A line is known to
start after a line feed that has been read; the first line starts at offset 0. Every operation
keeps the table strictly increasing.
-/
namespace SchemaScan

/-- The start offsets of the known lines, in increasing order. -/
abbrev LineTable := List Nat

namespace LineTable

/-- The table of a document of which nothing has been read. -/
def fresh : LineTable := [0]

/-- The lines that start at or before an offset. -/
def upTo (table : LineTable) (offset : Nat) : LineTable := table.takeWhile (· ≤ offset)

/-- The number of the line that holds an offset, 0 if every known line starts after it. -/
def lineAt (table : LineTable) (offset : Nat) : Nat := (table.upTo offset).length

/-- The column of an offset in its line, 0 if every known line starts after it. -/
def columnAt (table : LineTable) (offset : Nat) : Nat :=
  match (table.upTo offset).getLast? with
  | some start => offset - start + 1
  | none => 0

/-- Appends a line, unless it does not start after the last one or not inside the document. -/
def add (size : Nat) (table : LineTable) (start : Nat) : LineTable :=
  if (table.getLast?.all (· < start)) && start < size then table ++ [start] else table

/-- Appends several lines, each under the conditions of `add`. -/
def addAll (size : Nat) (table : LineTable) (starts : List Nat) : LineTable :=
  starts.foldl (add size) table

/-- The starts are strictly increasing and lie inside a document of this size. -/
def isTableFor (size : Nat) (starts : List Nat) : Bool :=
  starts.Pairwise (· < ·) && starts.all (· < size)

/-- The offsets after the line feeds of a text that itself starts at `offset`. -/
def startsFrom (offset : Nat) : List UInt8 → List Nat
  | [] => []
  | b :: bytes =>
    if b = 0x0A then (offset + 1) :: startsFrom (offset + 1) bytes
    else startsFrom (offset + 1) bytes

/-- The table of a whole text. A line feed at the very end starts no line. -/
def ofContent (content : List UInt8) : LineTable :=
  0 :: (startsFrom 0 content).filter (· < content.length)

end LineTable

end SchemaScan
