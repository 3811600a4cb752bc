/-! # Sets of characters as ranges

A table lists the first and the last code point of each range.
-/
namespace SchemaScan

/-- A set of code points, as inclusive ranges. -/
abbrev CodeRanges := List (Nat × Nat)

namespace CodeRanges

/-- Some range holds the character. -/
def contains (ranges : CodeRanges) (c : Char) : Bool :=
  ranges.any fun range => range.1 ≤ c.toNat && c.toNat ≤ range.2

end CodeRanges

end SchemaScan
