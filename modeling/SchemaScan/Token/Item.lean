import SchemaScan.Text.Quoted
import SchemaScan.Token.Kind

/-! # Items

An item is one token as a reader of the stream gets it: its kind, where it starts, what it says,
and the line on which it ends.
-/
namespace SchemaScan

/-- Which tokens a scan reports. -/
structure Mode where
  /-- Comments are reported as items of their own. -/
  comments : Bool := false
  deriving DecidableEq, Repr

namespace Mode

/-- Everything that `other` asks for is asked for by `mode`. -/
def contains (mode other : Mode) : Bool := !other.comments || mode.comments

/-- Asks for what either mode asks for. -/
def union (mode other : Mode) : Mode := ⟨mode.comments || other.comments⟩

end Mode

/-- A token in a stream. -/
structure Item where
  kind : Kind
  /-- Where the item starts, in the position space that the document shares with others. -/
  pos : Nat
  /-- The source text of the item, or the message of an error. -/
  text : String
  /-- The line of the end of the item, counted from 1. -/
  line : Nat
  deriving DecidableEq, Repr

/-- A lexical error as an item reports it. -/
structure LexicalError where
  message : String
  pos : Nat
  line : Nat
  deriving DecidableEq, Repr

namespace Item

/-- The item ends its stream. -/
def isTerminal (item : Item) : Bool := item.kind.isTerminal

/-- The error that an item reports, if it is one. -/
def error? (item : Item) : Option LexicalError :=
  if item.kind = .error then some ⟨item.text, item.pos, item.line⟩ else none

/-- Longer texts are cut off when an item is shown. -/
def shownLength : Nat := 10

/-- A short form of an item: the message of an error, a reserved word in angle brackets, any other
text in quotes and cut to its first ten characters. -/
def display (item : Item) : String :=
  match item.kind with
  | .eof => "EOF"
  | .error => item.text
  | .keyword _ => "<" ++ item.text ++ ">"
  | _ =>
    if item.text.length > shownLength then
      Quoted.ofString (String.ofList (item.text.toList.take shownLength)) ++ "..."
    else
      Quoted.ofString item.text

end Item

end SchemaScan
