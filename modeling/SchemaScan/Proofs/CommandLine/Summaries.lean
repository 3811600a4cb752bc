import SchemaScan.Proofs.CommandLine.Lines
import SchemaScan.Proofs.Scan.Passage
import SchemaScan.Proofs.Source.LineStarts
import SchemaScan.Stream.Bookmark

/-! # Summaries

What is to be printed about a file follows from its name and its content. The summary of a list of files puts
that together: the lines of the files that could be read in their order, and the errors, those about
reading first.
-/
namespace SchemaScan

namespace CommandLine

/-- The name and the content of a file that could be read. -/
structure Text where
  name : String
  content : List UInt8

namespace Text

/-- The items of the text. Their positions are offsets. -/
def items (comments : Bool) (t : Text) : List Item := (Trace.ofSource { comments } t.content).items 0

/-- Where an item of the text starts. -/
def locate (t : Text) (item : Item) : Location := Location.inText t.name t.content item.pos

def line (t : Text) (item : Item) : String := itemLine false (t.locate item) item

/-- The error that an item of the text reports, if it is one. -/
def error? (t : Text) (item : Item) : Option String :=
  item.error?.map fun e => errorLine false ((t.locate item).render ++ ": " ++ e.message)

/-- A line for every item but an error. -/
def lines (comments : Bool) (t : Text) : List String :=
  ((t.items comments).filter (·.kind ≠ .error)).map t.line

end Text

namespace SourceFile

def text? (f : SourceFile) : Option Text := f.content.toOption.map (⟨f.name, ·⟩)

/-- The error about a file that could not be read. -/
def readError? (f : SourceFile) : Option String :=
  match f.content with
  | .ok _ => none
  | .error failure => some (errorLine false ("cannot read " ++ f.name ++ ": " ++ failure.message))

end SourceFile

/-- Adds lines and errors. -/
def Report.add (r : Report) (lines errors : List String) : Report :=
  ⟨r.failures + errors.length, r.out ++ String.join lines, r.err ++ String.join errors⟩

namespace Report

variable {r : Report}

theorem add_add (r : Report) (lines errors moreLines moreErrors : List String) :
    (r.add lines errors).add moreLines moreErrors = r.add (lines ++ moreLines) (errors ++ moreErrors) := by
  simp [add, Nat.add_assoc, String.append_assoc]

end Report

namespace Text

variable {t : Text} {comments : Bool} {r : Report} {space : PositionSpace} {item : Item} {items : List Item}

theorem items_closed (comments : Bool) (t : Text) : Item.Closed (t.items comments) :=
  Trace.items_closed ..

end Text

namespace Report

variable {comments : Bool} {files : List SourceFile}

end Report

end CommandLine

end SchemaScan
