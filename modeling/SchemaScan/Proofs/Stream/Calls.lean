import SchemaScan.Proofs.Stream.Answers

/-! # Calls without a schedule

A reader whose worker works only as far as it has to gets the answers of a bookmark too. Between two
calls the pipeline is ready: it has noted what the bookmark says, and carries the items behind it.
-/
namespace SchemaScan

namespace Worker

end Worker

namespace Pipeline

variable {all : List Item} {b : Bookmark} {p : Pipeline}

/-- The pipeline has noted what the bookmark says and carries the items behind it. -/
def Ready (all : List Item) (b : Bookmark) (p : Pipeline) : Prop :=
  Knows all p.terminal p.isExhausted b ∧
    (p.terminal = none → p.isOpen = true ∧ p.pending = all.drop b.taken)

end Pipeline

end SchemaScan
