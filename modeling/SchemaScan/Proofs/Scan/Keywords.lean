import SchemaScan.Proofs.Scan.Marks
import SchemaScan.Proofs.Scan.Visits

/-! # The first words of definitions

A definition starts with a reserved word, which is reported unless it is `on`. With any other word the scan
ends, and of the word nothing is reported but the fault. This holds of words in one segment: the segments in
front of the last one are reported before the word is known.
-/
namespace SchemaScan

namespace State

/-- What would be the first segment of a name. -/
def word (s : State) : Reading Bool := NameSegment.read s.cursor.rest

/-- What would be the first segment of a name behind the word. -/
def behind (s : State) : Reading Bool := NameSegment.read (Rune.afterRun isBlank s.word.rest)

variable {mode : Mode} {s : State}

/-! ## Up to the first word -/

end State

/-! ## Periods -/

namespace State

end State

namespace State

end State

end SchemaScan
