import SchemaScan.CommandLine.Report
import SchemaScan.Stream.Schedule

/-! # Crews

The files of a run are scanned side by side. Each has a worker and a reader of its own, and the reader takes
all items; a schedule says which file, and which of the two, has its turn. Nothing is printed before every
reader has got its items. They are printed in the order of the files, however the turns went.
-/
namespace SchemaScan.CommandLine

/-- The scan of a file. -/
structure Job where
  /-- The index of the document in the space. -/
  index : Nat
  session : Session

namespace Job

/-- The scan of a file in front of its first move. -/
def start? (options : Options) (space : PositionSpace) (file : Opened) : Option Job :=
  match space.docs[file.index]? with
  | none => none
  | some doc =>
    match Pipeline.start doc file.content { comments := options.comments } options.queue with
    | .error _ => none
    | .ok pipeline => some ⟨file.index, Session.start pipeline [.takeAll]⟩

/-- What the reader has got, as soon as it has got all. -/
def items? (job : Job) : Option (List Item) :=
  match job.session.answers with
  | [.items items] => some items
  | _ => none

/-- The scan after some turns. -/
def run (job : Job) (turns : List Party) : Job := { job with session := job.session.run turns }

end Job

/-- The scans of the files that could be read, in the order of the command line. -/
abbrev Crew := List Job

namespace Crew

def start (options : Options) (space : PositionSpace) (files : List Opened) : Crew :=
  files.filterMap (Job.start? options space)

/-- The turn of a party in the scan with the given number. -/
def turn (crew : Crew) (move : Nat × Party) : Crew := crew.modify move.1 (·.run [move.2])

def run (crew : Crew) (schedule : List (Nat × Party)) : Crew := schedule.foldl turn crew

/-- The items of all files, as soon as every reader has got its own. -/
def items? (crew : Crew) : Option (List Item) := (crew.mapM Job.items?).map List.flatten

end Crew

/-- Adds items one after the other. Every lookup leaves the document that it has found behind as the
remembered one. -/
def Report.items (color : Bool) : PositionSpace → Report → List Item → Report
  | _, r, [] => r
  | space, r, item :: rest =>
    Report.items color (space.locate item.pos).2 (r.item color space item) rest

end SchemaScan.CommandLine
